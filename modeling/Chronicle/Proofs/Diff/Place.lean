import Chronicle.Proofs.Diff.Repetition
import Mathlib.Data.List.Nodup

/-!
# Places in a diff

A place is a list of names that leads through nested diffs to an attribute, which has a plain change
there, or a nested diff of its own. A diff is apart if no attribute has both.

## Implementation notes

Plain changes and nested diffs are merged without regard to each other. So merging takes the places of
either kind together, and what is apart in two diffs need not be so in what they have merged. The kind
of a place is told by a function that gives the names of one level.
-/

namespace Chronicle

namespace Diff

variable {legal : String → Prop}

/-- The names of the plain changes. -/
def plainNames (d : Diff) : List String := d.changes.map Change.name

/-- The names of the nested diffs. -/
def nestedNames (d : Diff) : List String := d.embedded.map Prod.fst

/-- Whether at no level an attribute has both a plain change and a nested diff. -/
def Apart : Diff → Prop
  | .plain _ => True
  | .nest name nested rest => name ∉ rest.plainNames ∧ nested.Apart ∧ rest.Apart

instance Apart.decidable : (d : Diff) → Decidable d.Apart
  | .plain _ => isTrue trivial
  | .nest _ nested rest =>
    have := decidable nested
    have := decidable rest
    inferInstanceAs (Decidable (_ ∧ _ ∧ _))

/-- The places inside nested diffs, given which names of a level count. -/
def placesBelow (names : Diff → List String) : Diff → List (List String)
  | .plain _ => []
  | .nest name nested rest =>
    ((names nested).map ([·]) ++ nested.placesBelow names).map (name :: ·) ++ rest.placesBelow names

/-- The places of a diff, given which names of a level count. -/
def places (names : Diff → List String) (d : Diff) : List (List String) :=
  (names d).map ([·]) ++ d.placesBelow names

/-- The places of plain changes. -/
def plainPlaces (d : Diff) : List (List String) := d.places plainNames

/-- The places of nested diffs. -/
def nestedPlaces (d : Diff) : List (List String) := d.places nestedNames

/-! ## Reading places -/

theorem mem_placesBelow {names : Diff → List String} {d : Diff} (h : d.Proper legal)
    (place : List String) :
    place ∈ d.placesBelow names ↔
      ∃ key inner rest, d.nested? key = some inner ∧ rest ∈ inner.places names ∧
        place = key :: rest := by
  induction d with
  | plain changes => simp [placesBelow, nested?]
  | nest name nested rest _ ih =>
      obtain ⟨-, -, hkeys, hrest⟩ := h
      rw [placesBelow, List.mem_append, ih hrest, List.mem_map]
      constructor
      · rintro (⟨tail, htail, rfl⟩ | ⟨key, inner, tail, hkey, htail, rfl⟩)
        · exact ⟨name, nested, tail, by rw [nested?, if_pos rfl], htail, rfl⟩
        · have hne : name ≠ key := by
            rintro rfl
            rw [nested?_eq_none rest name fun hmem => String.lt_irrefl name (hkeys name hmem)] at hkey
            cases hkey
          exact ⟨key, inner, tail, by rw [nested?, if_neg hne, hkey], htail, rfl⟩
      · rintro ⟨key, inner, tail, hkey, htail, rfl⟩
        by_cases hname : name = key
        · rw [nested?, if_pos hname, Option.some.injEq] at hkey
          subst hname hkey
          exact Or.inl ⟨tail, htail, rfl⟩
        · rw [nested?, if_neg hname] at hkey
          exact Or.inr ⟨key, inner, tail, hkey, htail, rfl⟩

theorem nil_not_mem_places {names : Diff → List String} {d : Diff} (h : d.Proper legal) :
    [] ∉ d.places names := by
  simp [places, mem_placesBelow h]

/-- A place is a name of the first level, or it leads into the nested diff of its first name. -/
theorem cons_mem_places {names : Diff → List String} {d : Diff} (h : d.Proper legal) (key : String)
    (rest : List String) :
    key :: rest ∈ d.places names ↔
      key ∈ names d ∧ rest = [] ∨ ∃ inner, d.nested? key = some inner ∧ rest ∈ inner.places names := by
  rw [places, List.mem_append, mem_placesBelow h, List.mem_map]
  constructor
  · rintro (⟨name, hname, heq⟩ | ⟨name, inner, tail, hkey, htail, heq⟩)
    · obtain ⟨rfl, rfl⟩ := List.cons.inj heq
      exact Or.inl ⟨hname, rfl⟩
    · obtain ⟨rfl, rfl⟩ := List.cons.inj heq
      exact Or.inr ⟨inner, hkey, htail⟩
  · rintro (⟨hname, rfl⟩ | ⟨inner, hkey, htail⟩)
    · exact Or.inl ⟨key, hname, rfl⟩
    · exact Or.inr ⟨key, inner, rest, hkey, htail, rfl⟩

/-- Where merging takes the names of a level together, it takes the places together. -/
theorem mem_places_merge {names : Diff → List String}
    (hnames : ∀ {earlier later : Diff}, earlier.Proper legal → later.Proper legal → ∀ name,
      name ∈ names (earlier.merge later) ↔ name ∈ names earlier ∨ name ∈ names later)
    {earlier later : Diff} (he : earlier.Proper legal) (hl : later.Proper legal)
    (place : List String) :
    place ∈ (earlier.merge later).places names ↔
      place ∈ earlier.places names ∨ place ∈ later.places names := by
  induction place generalizing earlier later with
  | nil => simp [nil_not_mem_places he, nil_not_mem_places hl, nil_not_mem_places (he.merge hl)]
  | cons key rest ih =>
      have hinner : (∃ inner, (earlier.merge later).nested? key = some inner ∧
            rest ∈ inner.places names) ↔
          (∃ inner, earlier.nested? key = some inner ∧ rest ∈ inner.places names) ∨
            ∃ inner, later.nested? key = some inner ∧ rest ∈ inner.places names := by
        rw [nested?_merge he hl]
        cases hearlier : earlier.nested? key with
        | none => simp
        | some known =>
            cases hlater : later.nested? key with
            | none => simp
            | some inner => simpa using ih (he.nested hearlier).2 (hl.nested hlater).2
      rw [cons_mem_places (he.merge hl), cons_mem_places he, cons_mem_places hl, hnames he hl, hinner,
        or_and_right, or_or_or_comm]

theorem mem_plainPlaces_merge {earlier later : Diff} (he : earlier.Proper legal)
    (hl : later.Proper legal) (place : List String) :
    place ∈ (earlier.merge later).plainPlaces ↔
      place ∈ earlier.plainPlaces ∨ place ∈ later.plainPlaces := by
  refine mem_places_merge (fun {a b} _ _ name => ?_) he hl place
  rw [plainNames, merge, changes_mergeInto, mem_names_foldl_record]
  exact or_comm

theorem mem_nestedPlaces_merge {earlier later : Diff} (he : earlier.Proper legal)
    (hl : later.Proper legal) (place : List String) :
    place ∈ (earlier.merge later).nestedPlaces ↔
      place ∈ earlier.nestedPlaces ∨ place ∈ later.nestedPlaces := by
  refine mem_places_merge (fun {a b} ha hb name => ?_) he hl place
  simp only [nestedNames, ← nested?_isSome_iff, nested?_merge ha hb]
  cases a.nested? name <;> cases b.nested? name <;> simp

/-- Merged one after another, diffs have all their places. -/
theorem places_foldl_merge {first : Diff} {rest : List Diff}
    (h : ∀ d ∈ first :: rest, d.Proper legal) :
    (rest.foldl merge first).Proper legal ∧
      (∀ place, place ∈ (rest.foldl merge first).plainPlaces ↔
        ∃ d ∈ first :: rest, place ∈ d.plainPlaces) ∧
      ∀ place, place ∈ (rest.foldl merge first).nestedPlaces ↔
        ∃ d ∈ first :: rest, place ∈ d.nestedPlaces := by
  induction rest generalizing first with
  | nil => exact ⟨h first List.mem_cons_self, by simp, by simp⟩
  | cons second rest ih =>
      obtain ⟨hfirst, hsecond, hrest⟩ : first.Proper legal ∧ second.Proper legal ∧
          ∀ d ∈ rest, d.Proper legal := by
        simpa only [List.forall_mem_cons] using h
      have hmerged : ∀ d ∈ first.merge second :: rest, d.Proper legal :=
        List.forall_mem_cons.mpr ⟨hfirst.merge hsecond, hrest⟩
      obtain ⟨hproper, hplain, hnested⟩ := ih hmerged
      refine ⟨hproper, fun place => ?_, fun place => ?_⟩
      · rw [List.foldl_cons, hplain]
        simp [mem_plainPlaces_merge hfirst hsecond, or_assoc]
      · rw [List.foldl_cons, hnested]
        simp [mem_nestedPlaces_merge hfirst hsecond, or_assoc]

theorem Proper.nodup_nestedNames {d : Diff} (h : d.Proper legal) : d.nestedNames.Nodup := by
  induction d with
  | plain changes => exact List.nodup_nil
  | nest name nested rest _ ih =>
      obtain ⟨-, -, hkeys, hrest⟩ := h
      exact List.nodup_cons.mpr ⟨fun hmem => String.lt_irrefl name (hkeys name hmem), ih hrest⟩

/-! ## Compatible diffs -/

/-- Whether no attribute has a plain change in one of some diffs and a nested diff in one of them. -/
def Compatible (diffs : List Diff) : Prop :=
  ∀ a ∈ diffs, ∀ b ∈ diffs, ∀ place ∈ a.plainPlaces, place ∉ b.nestedPlaces

instance (diffs : List Diff) : Decidable (Compatible diffs) :=
  inferInstanceAs (Decidable (∀ a ∈ diffs, ∀ b ∈ diffs,
    ∀ place ∈ a.plainPlaces, place ∉ b.nestedPlaces))

/-! ## Apartness -/

/-- A diff is apart if its two views have no name in common and all nested diffs are apart. -/
theorem apart_iff {d : Diff} (h : d.Proper legal) :
    d.Apart ↔ (∀ name ∈ d.plainNames, d.nested? name = none) ∧
      ∀ name inner, d.nested? name = some inner → inner.Apart := by
  induction d with
  | plain changes => simp [Apart, nested?]
  | nest n nested rest _ ih =>
      obtain ⟨-, -, hkeys, hrest⟩ := h
      have hnone : rest.nested? n = none :=
        nested?_eq_none rest n fun hmem => String.lt_irrefl n (hkeys n hmem)
      rw [Apart, ih hrest]
      change _ ↔ (∀ name ∈ rest.plainNames, _) ∧ _
      constructor
      · rintro ⟨hname, hnested, hplain, hinner⟩
        refine ⟨fun name hmem => ?_, fun name inner hlookup => ?_⟩
        · have hne : n ≠ name := fun heq => hname (heq ▸ hmem)
          rw [nested?, if_neg hne]
          exact hplain name hmem
        · by_cases hkey : n = name
          · rw [nested?, if_pos hkey, Option.some.injEq] at hlookup
            exact hlookup ▸ hnested
          · rw [nested?, if_neg hkey] at hlookup
            exact hinner name inner hlookup
      · rintro ⟨hplain, hinner⟩
        have hname : n ∉ rest.plainNames := by
          intro hmem
          simpa [nested?] using hplain n hmem
        refine ⟨hname, hinner n nested (by simp [nested?]), fun name hmem => ?_,
          fun name inner hlookup => ?_⟩
        · have hne : n ≠ name := fun heq => hname (heq ▸ hmem)
          simpa [nested?, hne] using hplain name hmem
        · have hne : n ≠ name := by
            rintro rfl
            rw [hnone] at hlookup
            cases hlookup
          exact hinner name inner (by rw [nested?, if_neg hne, hlookup])

/-- A diff is apart if no place is one of both kinds. -/
theorem apart_iff_places {d : Diff} (h : d.Proper legal) :
    d.Apart ↔ ∀ place ∈ d.plainPlaces, place ∉ d.nestedPlaces := by
  have hinner : ∀ key inner, d.nested? key = some inner →
      (inner.Apart ↔ ∀ place ∈ inner.plainPlaces, place ∉ inner.nestedPlaces) := by
    intro key inner hkey
    have := sizeOf_nested? hkey
    exact apart_iff_places (h.nested hkey).2
  rw [apart_iff h]
  constructor
  · rintro ⟨hplain, hapart⟩ place hmem hboth
    cases place with
    | nil => exact nil_not_mem_places h hmem
    | cons key rest =>
        rcases (cons_mem_places h key rest).mp hmem with ⟨hname, rfl⟩ | ⟨inner, hkey, hmem⟩
        · rcases (cons_mem_places h key []).mp hboth with ⟨hnested, -⟩ | ⟨inner, hkey, -⟩
          · rw [nestedNames, ← nested?_isSome_iff, hplain key hname] at hnested
            cases hnested
          · rw [hplain key hname] at hkey
            cases hkey
        · rcases (cons_mem_places h key rest).mp hboth with ⟨-, rfl⟩ | ⟨other, hother, hboth⟩
          · exact nil_not_mem_places (h.nested hkey).2 hmem
          · rw [hkey, Option.some.injEq] at hother
            subst hother
            exact (hinner key inner hkey).mp (hapart key inner hkey) rest hmem hboth
  · intro hplaces
    constructor
    · intro name hname
      apply nested?_eq_none
      intro hnested
      exact hplaces [name] ((cons_mem_places h name []).mpr (Or.inl ⟨hname, rfl⟩))
        ((cons_mem_places h name []).mpr (Or.inl ⟨hnested, rfl⟩))
    · intro key inner hkey
      refine (hinner key inner hkey).mpr fun place hmem hboth => ?_
      exact hplaces (key :: place) ((cons_mem_places h key place).mpr (Or.inr ⟨inner, hkey, hmem⟩))
        ((cons_mem_places h key place).mpr (Or.inr ⟨inner, hkey, hboth⟩))
termination_by sizeOf d

/-- What several diffs have merged is apart if they are compatible. -/
theorem apart_foldl_merge {first : Diff} {rest : List Diff}
    (h : ∀ d ∈ first :: rest, d.Proper legal) :
    (rest.foldl merge first).Apart ↔ Compatible (first :: rest) := by
  obtain ⟨hproper, hplain, hnested⟩ := places_foldl_merge h
  rw [apart_iff_places hproper]
  constructor
  · intro hplaces a ha b hb place hmem hboth
    exact hplaces place ((hplain place).mpr ⟨a, ha, hmem⟩) ((hnested place).mpr ⟨b, hb, hboth⟩)
  · intro hcompatible place hmem hboth
    obtain ⟨a, ha, hmem⟩ := (hplain place).mp hmem
    obtain ⟨b, hb, hboth⟩ := (hnested place).mp hboth
    exact hcompatible a ha b hb place hmem hboth

/-! ## Adding to what is apart -/

theorem Apart.add {d : Diff} {change : Change} (h : d.Apart) (hd : d.Proper legal)
    (hname : legal change.name) (hfresh : change.name ∉ d.topNames) : (d.add change).Apart := by
  obtain ⟨hplain, hinner⟩ := (apart_iff hd).mp h
  rw [apart_iff (hd.add hname)]
  refine ⟨fun name hmem => ?_, fun name inner hkey => ?_⟩
  · rw [Diff.add, nested?_mapChanges]
    rw [plainNames, Diff.add, changes_mapChanges, mem_names_record] at hmem
    rcases hmem with rfl | hmem
    · exact nested?_eq_none d change.name fun hnested => hfresh (List.mem_append_right _ hnested)
    · exact hplain name hmem
  · rw [Diff.add, nested?_mapChanges] at hkey
    exact hinner name inner hkey

theorem Apart.addEmbedded {d inner : Diff} {name : String} (h : d.Apart) (hd : d.Proper legal)
    (hname : legal name) (hfresh : name ∉ d.topNames) (hinner : inner.Proper legal)
    (hapart : inner.Apart) : (d.addEmbedded name inner).Apart := by
  obtain ⟨hplain, hnested⟩ := (apart_iff hd).mp h
  have hnone : d.nested? name = none :=
    nested?_eq_none d name fun hmem => hfresh (List.mem_append_right _ hmem)
  have hlookup : ∀ key, (d.addEmbedded name inner).nested? key =
      if name = key then some inner else d.nested? key := by
    intro key
    rw [Diff.addEmbedded, nested?_upsert hd, hnone]
    rfl
  rw [apart_iff (hd.addEmbedded hname hinner)]
  refine ⟨fun key hmem => ?_, fun key other hkey => ?_⟩
  · rw [plainNames, Diff.addEmbedded, changes_upsert] at hmem
    have hne : name ≠ key := fun heq => hfresh (heq ▸ List.mem_append_left _ hmem)
    rw [hlookup, if_neg hne]
    exact hplain key hmem
  · rw [hlookup] at hkey
    split_ifs at hkey
    · cases hkey
      exact hapart
    · exact hnested key other hkey

/-! ## Diffs that are told by names -/

/-- Whether a diff has under each name what is said of the name: this nested diff, or a plain change. -/
structure Follows (d : Diff) (said : String → Option Diff) : Prop where
  plain : ∀ name ∈ d.plainNames, said name = none
  nested : ∀ name inner, d.nested? name = some inner → said name = some inner

variable {said : String → Option Diff}

theorem Follows.add {d : Diff} {change : Change} (h : d.Follows said)
    (hname : said change.name = none) : (d.add change).Follows said where
  plain := by
    intro name hmem
    rw [plainNames, Diff.add, changes_mapChanges, mem_names_record] at hmem
    rcases hmem with rfl | hmem
    · exact hname
    · exact h.plain name hmem
  nested := by
    intro name inner hkey
    rw [Diff.add, nested?_mapChanges] at hkey
    exact h.nested name inner hkey

/-- The nested diff of a name may be added any number of times. -/
theorem Follows.addEmbedded {d inner : Diff} {name : String} (h : d.Follows said)
    (hd : d.Proper legal) (hinner : inner.Proper legal) (hname : said name = some inner) :
    (d.addEmbedded name inner).Follows said where
  plain := by
    intro key hmem
    rw [plainNames, Diff.addEmbedded, changes_upsert] at hmem
    exact h.plain key hmem
  nested := by
    intro key other hkey
    rw [Diff.addEmbedded, nested?_upsert hd] at hkey
    split_ifs at hkey with hsame
    · subst hsame
      cases hknown : d.nested? name with
      | none =>
          rw [hknown] at hkey
          cases hkey
          exact hname
      | some known =>
          have heq : known = inner := by
            have h := h.nested name known hknown
            rw [hname, Option.some.injEq] at h
            exact h.symm
          rw [hknown, heq] at hkey
          change some (inner.merge inner) = some other at hkey
          rw [hinner.merge_again.1] at hkey
          exact hname.trans hkey
    · exact h.nested key other hkey

/-- A name that the diff has at all holds what is said of it. -/
theorem Follows.nested?_eq {d : Diff} (h : d.Follows said) {name : String}
    (hname : name ∈ d.topNames) : d.nested? name = said name := by
  cases hkey : d.nested? name with
  | some inner => exact (h.nested name inner hkey).symm
  | none =>
      have hnested : name ∉ d.nestedNames := by
        rw [nestedNames, ← nested?_isSome_iff, hkey]
        exact Bool.false_ne_true
      exact (h.plain name ((List.mem_append.mp hname).resolve_right hnested)).symm

/-- No name stands twice at the first level: neither in one of the two views nor in both. -/
theorem Follows.nodup_topNames {d : Diff} (h : d.Follows said) (hd : d.Proper legal) :
    d.topNames.Nodup := by
  apply List.Nodup.append hd.nodup hd.nodup_nestedNames
  intro name hplain hnested
  obtain ⟨inner, hkey⟩ := Option.isSome_iff_exists.mp ((nested?_isSome_iff d name).mpr hnested)
  have hsome := h.nested name inner hkey
  rw [h.plain name hplain] at hsome
  cases hsome

/-- What follows a function of names is apart if all nested diffs of the function are. -/
theorem Follows.apart {d : Diff} (h : d.Follows said) (hd : d.Proper legal)
    (hinner : ∀ name inner, said name = some inner → inner.Apart) : d.Apart := by
  rw [apart_iff hd]
  refine ⟨fun name hmem => ?_, fun name inner hkey => hinner name inner (h.nested name inner hkey)⟩
  rw [Option.eq_none_iff_forall_ne_some]
  intro inner hkey
  have hsome := h.nested name inner hkey
  rw [h.plain name hmem] at hsome
  cases hsome

end Diff

end Chronicle
