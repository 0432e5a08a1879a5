import Chronicle.Proofs.Files.Frame
import Mathlib.Data.List.Nodup

/-!
# Proper trees

A tree is proper if no place is told of twice, if everything has a name, and if it lies in a directory.
The tree without anything is proper, and making directories and writing files keep a tree proper.
-/

namespace Chronicle

namespace FileTree

variable {s t : FileTree} {path content : String}

/-- Whether a tree tells of each place once, with a name, in a directory. -/
structure Proper (t : FileTree) : Prop where
  distinct : (t.entries.map Prod.fst).Nodup
  named : ∀ entry ∈ t.entries, ∃ name, Path.IsName name ∧ entry.1.getLast? = some name
  rooted : ∀ entry ∈ t.entries, t.get? entry.1.dropLast = some .directory

theorem proper_empty : Proper {} where
  distinct := List.nodup_nil
  named := fun _ h => nomatch h
  rooted := fun _ h => nomatch h

/-! ## Names in a directory -/

theorem mem_names {place : Place} {name : String} (h : name ∈ t.names place) :
    ∃ entry, (place ++ [name], entry) ∈ t.entries := by
  rw [names, List.mem_mergeSort, List.mem_filterMap] at h
  obtain ⟨⟨other, entry⟩, hentry, hname⟩ := h
  dsimp only at hname
  split_ifs at hname with hother
  rw [← hother.1, List.dropLast_append_getLast? name hname]
  exact ⟨entry, hentry⟩

theorem Proper.isName (h : t.Proper) {place : Place} {name : String}
    (hname : name ∈ t.names place) : Path.IsName name := by
  obtain ⟨entry, hentry⟩ := mem_names hname
  obtain ⟨last, hlast, heq⟩ := h.named _ hentry
  rw [List.getLast?_concat, Option.some.injEq] at heq
  exact heq ▸ hlast

theorem Proper.directory (h : t.Proper) {place : Place} {name : String}
    (hname : name ∈ t.names place) : t.get? place = some .directory := by
  obtain ⟨entry, hentry⟩ := mem_names hname
  simpa using h.rooted _ hentry

theorem get?_of_mem_names {place : Place} {name : String} (h : name ∈ t.names place) :
    t.get? (place ++ [name]) ≠ none := by
  obtain ⟨entry, hentry⟩ := mem_names h
  rw [FileTree.get?]
  split_ifs
  · simp
  · rw [Ne, List.lookup_eq_none_iff]
    intro hnone
    simpa using hnone _ hentry

theorem Proper.nodup_names (h : t.Proper) (place : Place) : (t.names place).Nodup := by
  rw [names, (List.mergeSort_perm _ _).nodup_iff]
  suffices hnodup : ((t.entries.map Prod.fst).filterMap fun other =>
      if other.dropLast = place ∧ ¬other.isGiven then other.getLast? else none).Nodup by
    rw [List.filterMap_map] at hnodup
    exact hnodup
  apply List.Nodup.filterMap _ h.distinct
  intro first second name hfirst hsecond
  rw [Option.mem_def] at hfirst hsecond
  split_ifs at hfirst hsecond with hone htwo
  rw [← List.dropLast_append_getLast? name hfirst, ← List.dropLast_append_getLast? name hsecond,
    hone.1, htwo.1]

/-! ## What is made -/

theorem get?_given {place : Place} (h : place.isGiven = true) : t.get? place = some .directory := by
  rw [FileTree.get?, if_pos h]

theorem mem_of_get? {place : Place} {entry : FileEntry} (h : t.get? place = some entry)
    (hgiven : place.isGiven = false) : (place, entry) ∈ t.entries := by
  rw [FileTree.get?, if_neg (by simp [hgiven])] at h
  obtain ⟨front, back, hentries, -⟩ := List.lookup_eq_some_iff.mp h
  rw [hentries]
  exact List.mem_append_right front List.mem_cons_self

theorem Proper.above (h : t.Proper) {place : Place} (hplace : t.get? place = some .directory) :
    t.get? place.above = some .directory := by
  rw [Place.above]
  split_ifs with hroot habove
  · exact hplace
  · refine get?_given ?_
    rw [Place.isGiven, List.all_append, habove]
    rfl
  · exact h.rooted _ (mem_of_get? hplace (by simp [Place.isGiven, hroot, habove]))

/-- Whether a place is a directory or a name in one. -/
def Reaches (t : FileTree) (place : Place) : Prop :=
  t.get? place = some .directory ∨
    ∃ name, Path.IsName name ∧ place.getLast? = some name ∧
      t.get? place.dropLast = some .directory

/-- A way ends at a directory or at a name in one. -/
theorem Proper.follow (h : t.Proper) {place last : Place} {parts : List String}
    (hparts : ∀ part ∈ parts, '/' ∉ part.toList)
    (hplace : t.Reaches place) (hlast : t.follow place parts = .ok last) : t.Reaches last := by
  induction parts generalizing place with
  | nil =>
      cases hlast
      exact hplace
  | cons part parts ih =>
      obtain ⟨hpart, hparts⟩ := List.forall_mem_cons.mp hparts
      rw [FileTree.follow] at hlast
      split at hlast
      · cases hlast
      · rename_i hdirectory
        split_ifs at hlast with hvoid hdots
        · exact ih hparts hplace hlast
        · exact ih hparts (Or.inl (h.above hdirectory)) hlast
        · refine ih hparts (Or.inr ⟨part, ⟨hpart, by simpa using hvoid, hdots⟩, ?_, ?_⟩) hlast
          · exact List.getLast?_concat
          · rw [List.dropLast_concat]
            exact hdirectory
      · cases hlast

theorem Proper.place (h : t.Proper) {place : Place} (hplace : t.place path = .ok place) :
    t.Reaches place := by
  rw [FileTree.place] at hplace
  split_ifs at hplace
  rw [Path.start_eq] at hplace
  have hslash := fun part => @Path.noSlash_of_mem_parts path part
  revert hplace hslash
  generalize Path.parts path = parts
  intro hplace hslash
  unfold Path.startOf at hplace
  split at hplace
  · exact h.follow (fun part hpart => hslash part (List.mem_cons_of_mem _ hpart))
      (Or.inl (get?_given rfl)) hplace
  · exact h.follow hslash (Or.inl (get?_given rfl)) hplace

/-- What is put at the end of a way, where no directory is, keeps a tree proper. -/
theorem Proper.put (h : t.Proper) {place : Place} {entry : FileEntry}
    (hplace : t.place path = .ok place) (hdirectory : t.get? place ≠ some .directory) :
    (t.put place entry).Proper := by
  obtain ⟨name, hname, hlast, habove⟩ := (h.place hplace).resolve_left hdirectory
  have hkeeps := keepsDirectories_put hdirectory entry
  constructor
  · rw [FileTree.put, List.map_cons, List.nodup_cons]
    refine ⟨?_, (h.distinct.sublist (List.filter_sublist.map _))⟩
    simp
  · intro other hother
    rcases List.mem_cons.mp hother with rfl | hother
    · exact ⟨name, hname, hlast⟩
    · exact h.named other (List.mem_filter.mp hother).1
  · intro other hother
    rcases List.mem_cons.mp hother with rfl | hother
    · exact hkeeps _ habove
    · exact hkeeps _ (h.rooted other (List.mem_filter.mp hother).1)

theorem Proper.makeDirectory (h : s.Proper) (ht : s.makeDirectory path = .ok t) : t.Proper := by
  rw [FileTree.makeDirectory] at ht
  cases hplace : s.newPlace path with
  | error cause =>
      rw [hplace] at ht
      cases ht
  | ok place =>
      simp only [hplace, bind, Except.bind] at ht
      split at ht
      · cases ht
      · rename_i hnone
        cases ht
        exact h.put (newPlace_eq_ok hplace) (by simp [hnone])

theorem Proper.makeDirectories (h : s.Proper) (ht : s.makeDirectories path = .ok t) :
    t.Proper := by
  have hmakes := makes_makeDirectoriesUpTo ht
  clear ht
  induction hmakes with
  | refl => exact h
  | tail _ hmade ih =>
      obtain ⟨below, hbelow⟩ := hmade
      exact ih.makeDirectory hbelow

theorem Proper.write (h : s.Proper) (ht : s.write path content = .ok t) : t.Proper := by
  obtain ⟨hplace, hdirectory, rfl⟩ := write_eq_ok ht
  exact h.put hplace hdirectory

end FileTree

end Chronicle
