import Chronicle.Proofs.Diff.Names
import Chronicle.Proofs.Diff.Repetition

/-!
# The algebra of diffs

The diffs that the operations build are the proper ones, and on them merging is an idempotent monoid: the
empty diff is its unit, it is associative in every detail, and merging a diff into itself changes
nothing.

## Implementation notes

Plain changes are determined by the order of their names and by the old value of each. Merging appends
the later names that are new and prefers the later old values, and both are associative. Nested diffs
are merged name by name, where the law is the one for smaller diffs.
-/

namespace Chronicle

namespace Diff

variable {legal : String → Prop}

/-- The diffs that the operations build from legal names. -/
inductive Built (legal : String → Prop) : Diff → Prop where
  | empty : Built legal empty
  | add {d : Diff} {change : Change} : Built legal d → legal change.name → Built legal (d.add change)
  | addEmbedded {d nested : Diff} {name : String} :
    Built legal d → legal name → Built legal nested → Built legal (d.addEmbedded name nested)
  | merge {earlier later : Diff} :
    Built legal earlier → Built legal later → Built legal (earlier.merge later)
  | mergeNames {earlier later : Diff} :
    Built legal earlier → Built legal later → Built legal (earlier.mergeNames later)
  | ofChanges {changes : List Change} :
    (∀ change ∈ changes, legal change.name) → Built legal (ofChanges changes)

/-! ## Plain changes, by names and old values -/

/-- Recording changes keeps the names that are there and appends the new ones. -/
theorem names_foldl_record {later : List Change} (h : (later.map Change.name).Nodup)
    (earlier : List Change) :
    (later.foldl (fun acc c => record c acc) earlier).map Change.name =
      earlier.map Change.name ++ (later.map Change.name).filter (· ∉ earlier.map Change.name) := by
  induction later generalizing earlier with
  | nil => exact (List.append_nil _).symm
  | cons c rest ih =>
      obtain ⟨hc, hrest⟩ := List.nodup_cons.mp h
      rw [List.foldl_cons, ih hrest, List.map_cons]
      by_cases hmem : c.name ∈ earlier.map Change.name
      · rw [names_record_of_mem hmem, List.filter_cons_of_neg (by simpa using hmem)]
      · rw [record_of_not_mem hmem, List.filter_cons_of_pos (by simpa using hmem), List.map_append,
          List.map_singleton, List.append_assoc, List.singleton_append]
        congr 2
        apply List.filter_congr
        intro name hname
        have hne : name ≠ c.name := fun heq => hc (heq ▸ hname)
        simp [hne]

/-- Changes of distinct names are determined by the order of their names and the old value of each. -/
theorem eq_of_names_of_plainOld? {changes others : List Change}
    (hdistinct : (changes.map Change.name).Nodup)
    (hnames : changes.map Change.name = others.map Change.name)
    (hold : ∀ name, plainOld? changes name = plainOld? others name) : changes = others := by
  apply List.ext_getElem
  · simpa using congrArg List.length hnames
  · intro i hi hi'
    have hname : changes[i].name = others[i].name := by
      simpa [hi, hi'] using congrArg (·[i]?) hnames
    have hleft := plainOld?_of_mem hdistinct (List.getElem_mem hi)
    have hright := plainOld?_of_mem (hnames ▸ hdistinct) (List.getElem_mem hi')
    rw [hold, hname, hright, Option.some.injEq] at hleft
    calc
      changes[i] = ⟨changes[i].name, changes[i].old⟩ := rfl
      _ = ⟨others[i].name, others[i].old⟩ := by rw [hname, hleft]
      _ = others[i] := rfl

theorem foldl_record_nil {changes : List Change} (h : (changes.map Change.name).Nodup) :
    changes.foldl (fun acc c => record c acc) [] = changes := by
  have hnames : (changes.foldl (fun acc c => record c acc) []).map Change.name =
      changes.map Change.name := by
    rw [names_foldl_record h]
    simp
  apply eq_of_names_of_plainOld? (hnames ▸ h) hnames
  intro name
  rw [plainOld?_foldl_record changes [] name h]
  exact Option.or_none

theorem nodup_foldl_record (later : List Change) {earlier : List Change}
    (h : (earlier.map Change.name).Nodup) :
    ((later.foldl (fun acc c => record c acc) earlier).map Change.name).Nodup := by
  induction later generalizing earlier with
  | nil => exact h
  | cons c rest ih => exact ih (nodup_record c h)

/-- Recording changes is associative, the order of the changes included. -/
theorem foldl_record_assoc {a b c : List Change} (ha : (a.map Change.name).Nodup)
    (hb : (b.map Change.name).Nodup) (hc : (c.map Change.name).Nodup) :
    c.foldl (fun acc c => record c acc) (b.foldl (fun acc c => record c acc) a) =
      (c.foldl (fun acc c => record c acc) b).foldl (fun acc c => record c acc) a := by
  have hbc := nodup_foldl_record c hb
  apply eq_of_names_of_plainOld? (nodup_foldl_record c (nodup_foldl_record b ha))
  · rw [names_foldl_record hc, names_foldl_record hb, names_foldl_record hbc, names_foldl_record hc,
      List.filter_append, List.filter_filter, List.append_assoc]
    congr 2
    apply List.filter_congr
    intro name _
    simp only [List.mem_append, List.mem_filter, decide_eq_true_eq, ← Bool.decide_and]
    apply decide_eq_decide.mpr
    tauto
  · intro name
    calc
      plainOld? (c.foldl (fun acc c => record c acc) (b.foldl (fun acc c => record c acc) a)) name
        = (plainOld? c name).or ((plainOld? b name).or (plainOld? a name)) := by
          rw [plainOld?_foldl_record c _ name hc, plainOld?_foldl_record b a name hb]
      _ = ((plainOld? c name).or (plainOld? b name)).or (plainOld? a name) := Option.or_assoc.symm
      _ = plainOld? ((c.foldl (fun acc c => record c acc) b).foldl (fun acc c => record c acc) a)
          name := by
          rw [plainOld?_foldl_record _ a name hbc, plainOld?_foldl_record c b name hc]

/-! ## The operations build the proper diffs -/

theorem Built.proper {d : Diff} (h : d.Built legal) : d.Proper legal := by
  induction h with
  | empty => exact proper_empty
  | add _ hname ih => exact ih.add hname
  | addEmbedded _ hname _ ih ihNested => exact ih.addEmbedded hname ihNested
  | merge _ _ ihEarlier ihLater => exact ihEarlier.merge ihLater
  | mergeNames _ _ ihEarlier ihLater => exact ihEarlier.mergeNames ihLater
  | ofChanges hnames => exact proper_empty.addAll hnames

/-- A nested diff with the first of all names is put before the others. -/
theorem addEmbedded_of_lt {d : Diff} {name : String} (h : ∀ key ∈ d.embedded.map Prod.fst, name < key)
    (nested : Diff) : d.addEmbedded name nested = .nest name nested d := by
  cases d with
  | plain changes => rfl
  | nest first inner rest =>
      have hlt : name < first := h first List.mem_cons_self
      have hne : first ≠ name := fun heq => String.lt_irrefl name (heq ▸ hlt)
      rw [addEmbedded, upsert, if_neg hne, if_pos hlt]

theorem ofChanges_eq {changes : List Change} (h : (changes.map Change.name).Nodup) :
    ofChanges changes = .plain changes := by
  have hview : (ofChanges changes).changes = changes := by
    rw [ofChanges, changes_addAll]
    exact foldl_record_nil h
  have hflat : (ofChanges changes).embedded = [] := embedded_addAll empty changes
  cases hshape : ofChanges changes with
  | plain others =>
      rw [hshape] at hview
      exact congrArg plain hview
  | nest name nested rest =>
      rw [hshape] at hflat
      cases hflat

/-- The operations build exactly the proper diffs. -/
theorem built_iff_proper (d : Diff) : d.Built legal ↔ d.Proper legal := by
  constructor
  · exact Built.proper
  · intro h
    induction d with
    | plain changes =>
        rw [← ofChanges_eq h.1]
        exact .ofChanges fun change hchange => h.2 change.name (List.mem_map_of_mem hchange)
    | nest name nested rest ihNested ihRest =>
        obtain ⟨hname, hnested, hkeys, hrest⟩ := h
        rw [← addEmbedded_of_lt hkeys]
        exact .addEmbedded (ihRest hrest) hname (ihNested hnested)

/-! ## The laws of merging -/

theorem merge_empty (d : Diff) : d.merge empty = d := rfl

theorem Proper.empty_merge {d : Diff} (h : d.Proper legal) : empty.merge d = d := by
  apply (proper_empty.merge h).eq_of_views h
  · rw [Diff.merge, changes_mergeInto]
    exact foldl_record_nil h.nodup
  · intro key
    rw [nested?_merge proper_empty h]
    exact Option.merge_none_left

/-- Merging is associative: the order of the plain changes and every nested diff come out the same. -/
theorem Proper.merge_assoc {a b c : Diff} (ha : a.Proper legal) (hb : b.Proper legal)
    (hc : c.Proper legal) : (a.merge b).merge c = a.merge (b.merge c) := by
  have hab := ha.merge hb
  have hbc := hb.merge hc
  apply (hab.merge hc).eq_of_views (ha.merge hbc)
  · simp only [Diff.merge, changes_mergeInto]
    exact foldl_record_assoc ha.nodup hb.nodup hc.nodup
  · intro key
    rw [nested?_merge hab hc, nested?_merge ha hb, nested?_merge ha hbc, nested?_merge hb hc]
    cases hkey : a.nested? key with
    | none => simp only [Option.merge_none_left]
    | some x =>
        cases hkey' : b.nested? key with
        | none => simp only [Option.merge_none_left, Option.merge_none_right]
        | some y =>
            cases hkey'' : c.nested? key with
            | none => simp only [Option.merge_none_right]
            | some z =>
                have := sizeOf_nested? hkey
                have hinner := Proper.merge_assoc (ha.nested hkey).2 (hb.nested hkey').2
                  (hc.nested hkey'').2
                exact congrArg some hinner
termination_by sizeOf a

end Diff

open Diff

/-- Every diff that the operations build has distinct names at every level, and so has what two of them
have merged. Merging has the empty diff as its unit, is associative, and changes nothing where a diff is
merged into itself. -/
theorem merging_is_idempotent_monoid {legal : String → Prop} {a b c : Diff} (ha : a.Built legal)
    (hb : b.Built legal) (hc : c.Built legal) :
    a.Proper legal ∧ (a.merge b).Proper legal ∧
      a.merge empty = a ∧ empty.merge a = a ∧
      (a.merge b).merge c = a.merge (b.merge c) ∧
      a.merge a = a := by
  refine ⟨ha.proper, (ha.merge hb).proper, merge_empty a, ha.proper.empty_merge, ?_, ?_⟩
  · exact ha.proper.merge_assoc hb.proper hc.proper
  · exact ha.proper.merge_again.1

namespace Sample

/-- What is reported of someone who was named and had a code in the address. -/
def naming : Diff :=
  (ofChanges [⟨"age", .scalar (.int 30)⟩, ⟨"name", .null⟩]).addEmbedded "address"
    (ofChanges [⟨"code", .scalar (.text "75")⟩])

/-- What is reported of someone who moved. -/
def move : Diff :=
  (ofChanges [⟨"city", .scalar (.text "Rome")⟩]).addEmbedded "address"
    ((ofChanges [⟨"street", .null⟩]).addEmbedded "geo" (ofChanges [⟨"lat", .null⟩]))

/-- What is reported of someone who has grown older, with another code. -/
def birthday : Diff :=
  (ofChanges [⟨"age", .scalar (.int 31)⟩]).addEmbedded "address"
    (ofChanges [⟨"code", .scalar (.text "00")⟩])

theorem naming_built : naming.Built Dotless :=
  .addEmbedded (.ofChanges (by simp [Dotless])) (by simp [Dotless]) (.ofChanges (by simp [Dotless]))

theorem move_built : move.Built Dotless :=
  .addEmbedded (.ofChanges (by simp [Dotless])) (by simp [Dotless])
    (.addEmbedded (.ofChanges (by simp [Dotless])) (by simp [Dotless]) (.ofChanges (by simp [Dotless])))

theorem birthday_built : birthday.Built Dotless :=
  .addEmbedded (.ofChanges (by simp [Dotless])) (by simp [Dotless]) (.ofChanges (by simp [Dotless]))

end Sample

open Sample in
/-- The order of a merged diff is that of the first mention, however the merges are grouped. -/
theorem birthday_merges_in_order :
    (naming.Built Dotless ∧ move.Built Dotless ∧ birthday.Built Dotless) ∧
      (naming.merge (move.merge birthday)).attributes =
        ["age", "name", "city", "address.code", "address.street", "address.geo.lat"] ∧
      naming.merge (move.merge birthday) = (naming.merge move).merge birthday ∧
      birthday.merge birthday = birthday := by
  obtain ⟨-, -, -, -, hassoc, -⟩ :=
    merging_is_idempotent_monoid naming_built move_built birthday_built
  obtain ⟨-, -, -, -, -, hself⟩ :=
    merging_is_idempotent_monoid birthday_built birthday_built birthday_built
  refine ⟨⟨naming_built, move_built, birthday_built⟩, ?_, hassoc.symm, hself⟩
  decide +kernel

end Chronicle
