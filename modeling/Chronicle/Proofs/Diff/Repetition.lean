import Chronicle.Proofs.Diff.Merge

/-!
# Merging the same diff again

A proper diff is determined by its plain changes and by the nested diff of each name. After a diff was
merged into another one all of it is in place, at every level, so that merging it once more changes
nothing.
-/

namespace Chronicle

namespace Diff

variable {legal : String → Prop}

/-- Proper diffs are equal if they have the same plain changes and the same nested diff of each name. -/
theorem Proper.eq_of_views {d e : Diff} (hd : d.Proper legal) (he : e.Proper legal)
    (hchanges : d.changes = e.changes) (hnested : ∀ key, d.nested? key = e.nested? key) : d = e := by
  induction d generalizing e with
  | plain changes =>
      cases e with
      | plain others => exact congrArg plain hchanges
      | nest name nested rest => simpa [nested?] using hnested name
  | nest name nested rest _ ih =>
      cases e with
      | plain others => simpa [nested?] using hnested name
      | nest other inner others =>
          obtain ⟨-, -, hkeys, hrest⟩ := hd
          obtain ⟨-, -, hkeys', hrest'⟩ := he
          -- Both first names are the least ones, so that neither can stand further behind.
          have hname : name = other := by
            by_contra hne
            have hleft : name ∈ others.embedded.map Prod.fst := by
              have h := hnested name
              rw [nested?, if_pos rfl, nested?, if_neg (Ne.symm hne)] at h
              rw [← nested?_isSome_iff, ← h]
              rfl
            have hright : other ∈ rest.embedded.map Prod.fst := by
              have h := hnested other
              rw [nested?, if_neg hne, nested?, if_pos rfl] at h
              rw [← nested?_isSome_iff, h]
              rfl
            exact String.lt_irrefl name (String.lt_trans (hkeys other hright) (hkeys' name hleft))
          subst hname
          have hinner : nested = inner := by simpa [nested?] using hnested name
          have hothers : rest = others := by
            apply ih hrest hrest' hchanges
            intro key
            by_cases hkey : name = key
            · subst hkey
              rw [nested?_eq_none rest name fun hmem => String.lt_irrefl name (hkeys name hmem),
                nested?_eq_none others name fun hmem => String.lt_irrefl name (hkeys' name hmem)]
            · simpa [nested?, hkey] using hnested key
          rw [hinner, hothers]

/-! ## Plain changes -/

/-- Changes that are all known are recorded without effect. -/
theorem foldl_record_of_known {later changes : List Change}
    (h : ∀ change ∈ later, plainOld? changes change.name = some change.old) :
    later.foldl (fun acc c => record c acc) changes = changes := by
  induction later with
  | nil => rfl
  | cons first rest ih =>
      rw [List.forall_mem_cons] at h
      rw [List.foldl_cons, record_of_known h.1]
      exact ih h.2

/-! ## Whole diffs -/

/-- A diff that is known already is merged without effect: its plain changes are those of the earlier one
and so is, where it has a nested diff, what the merge makes of it. -/
theorem Proper.merge_of_known {earlier later : Diff} (he : earlier.Proper legal)
    (hl : later.Proper legal)
    (hplain : ∀ change ∈ later.changes, plainOld? earlier.changes change.name = some change.old)
    (hnested : ∀ key inner, later.nested? key = some inner →
      ∃ known, earlier.nested? key = some known ∧ known.merge inner = known) :
    earlier.merge later = earlier := by
  apply (he.merge hl).eq_of_views he
  · rw [Diff.merge, changes_mergeInto, foldl_record_of_known hplain]
  · intro key
    rw [nested?_merge he hl]
    cases hkey : later.nested? key with
    | none => exact Option.merge_none_right
    | some inner =>
        obtain ⟨known, hknown, hmerge⟩ := hnested key inner hkey
        rw [hknown]
        exact congrArg some hmerge

/-- Merging a diff into itself, or once more into what it was merged into, changes nothing. -/
theorem Proper.merge_again {later : Diff} (hl : later.Proper legal) :
    later.merge later = later ∧
      ∀ earlier : Diff, earlier.Proper legal →
        (earlier.merge later).merge later = earlier.merge later := by
  have hinner : ∀ key inner, later.nested? key = some inner →
      inner.merge inner = inner ∧ ∀ earlier : Diff, earlier.Proper legal →
        (earlier.merge inner).merge inner = earlier.merge inner := by
    intro key inner hkey
    have := sizeOf_nested? hkey
    exact (hl.nested hkey).2.merge_again
  constructor
  · apply hl.merge_of_known hl
    · exact fun change hchange => plainOld?_of_mem hl.nodup hchange
    · exact fun key inner hkey => ⟨inner, hkey, (hinner key inner hkey).1⟩
  · intro earlier he
    apply (he.merge hl).merge_of_known hl
    · intro change hchange
      rw [plainOld?_merge hl, plainOld?_of_mem hl.nodup hchange]
      rfl
    · intro key inner hkey
      obtain ⟨hself, hmerged⟩ := hinner key inner hkey
      rw [nested?_merge he hl, hkey]
      cases hearlier : earlier.nested? key with
      | none => exact ⟨inner, rfl, hself⟩
      | some known => exact ⟨known.merge inner, rfl, hmerged known (he.nested hearlier).2⟩
termination_by sizeOf later

end Diff

end Chronicle
