import Chronicle.Proofs.Files.Paths
import Mathlib.Logic.Relation

/-!
# What writing leaves alone

Making directories only adds directories where nothing was, and writing a file changes what is at the
place of that file and nothing else. A path that has led somewhere goes on to lead there.
-/

namespace Chronicle

namespace FileTree

variable {s t u : FileTree} {path content : String}

/-! ## Ways -/

/-- Whether the directories of a tree are directories of another one. -/
def KeepsDirectories (s t : FileTree) : Prop :=
  ∀ place, s.get? place = some .directory → t.get? place = some .directory

theorem follow_eq_ok {place last : Place} {parts : List String}
    (h : t.follow place parts = .ok last) : last = place.along parts := by
  induction parts generalizing place with
  | nil =>
      cases h
      rfl
  | cons part parts ih =>
      rw [follow] at h
      rw [Place.along]
      split at h
      · cases h
      · split_ifs at h ⊢ <;> exact ih h
      · cases h

theorem KeepsDirectories.follow (hkeeps : KeepsDirectories s t) {place last : Place}
    {parts : List String} (h : s.follow place parts = .ok last) :
    t.follow place parts = .ok last := by
  induction parts generalizing place with
  | nil => exact h
  | cons part parts ih =>
      rw [FileTree.follow] at h ⊢
      split at h
      · cases h
      · rename_i hplace
        rw [hkeeps place hplace]
        split_ifs at h ⊢ <;> exact ih h
      · cases h

theorem follow_append {place : Place} {front back : List String} :
    t.follow place (front ++ back) = (t.follow place front).bind (t.follow · back) := by
  induction front generalizing place with
  | nil => rfl
  | cons part front ih =>
      rw [List.cons_append, follow, follow]
      split
      · rfl
      · split_ifs <;> exact ih
      · rfl

/-- An empty part at the end of a path leads nowhere else. -/
theorem follow_of_place {front : List String} (hfront : front ≠ [])
    (hparts : Path.parts path = front ∨ Path.parts path = front ++ [""]) {place : Place}
    (h : t.place path = .ok place) :
    t.follow (Path.startOf front).1 (Path.startOf front).2 = .ok place := by
  rw [FileTree.place] at h
  split_ifs at h
  rw [Path.start_eq] at h
  rcases hparts with hparts | hparts
  · rwa [hparts] at h
  · rw [hparts, Path.startOf_append hfront, follow_append] at h
    cases hlast : t.follow (Path.startOf front).1 (Path.startOf front).2 with
    | error cause =>
        rw [hlast] at h
        cases h
    | ok last =>
        rw [hlast] at h
        change t.follow last [""] = .ok place at h
        rw [follow] at h
        split at h
        · cases h
        · exact h
        · cases h

theorem place_eq_ok {place : Place} (h : t.place path = .ok place) :
    place = Path.target path := by
  rw [FileTree.place] at h
  split_ifs at h
  exact follow_eq_ok h

theorem KeepsDirectories.place (hkeeps : KeepsDirectories s t) {place : Place}
    (h : s.place path = .ok place) : t.place path = .ok place := by
  rw [FileTree.place] at h ⊢
  split_ifs at h ⊢
  exact hkeeps.follow h

theorem look_eq_ok {entry : FileEntry} :
    t.look path = .ok entry ↔
      t.place path = .ok (Path.target path) ∧ t.get? (Path.target path) = some entry := by
  rw [look]
  cases hplace : t.place path with
  | error cause =>
      simp only [reduceCtorEq, false_and, iff_false]
      exact fun h => nomatch h
  | ok place =>
      obtain rfl := place_eq_ok hplace
      simp only [bind, Except.bind]
      cases t.get? (Path.target path) <;> simp

/-- What is there is still there if nothing happened to its place. -/
theorem KeepsDirectories.look (hkeeps : KeepsDirectories s t) {entry : FileEntry}
    (hplace : t.get? (Path.target path) = s.get? (Path.target path))
    (h : s.look path = .ok entry) : t.look path = .ok entry := by
  rw [look_eq_ok] at h ⊢
  exact ⟨hkeeps.place h.1, hplace.trans h.2⟩

theorem read_eq_ok : t.read path = .ok content ↔ t.look path = .ok (.text content) := by
  rw [FileTree.read]
  cases t.look path with
  | error cause => constructor <;> intro h <;> cases h
  | ok entry =>
      simp only [bind, Except.bind]
      cases entry <;> simp

/-- What is read is still read if nothing happened to its place. -/
theorem KeepsDirectories.read (hkeeps : KeepsDirectories s t)
    (hplace : t.get? (Path.target path) = s.get? (Path.target path))
    (h : s.read path = .ok content) : t.read path = .ok content := by
  rw [read_eq_ok] at h ⊢
  exact hkeeps.look hplace h

theorem get?_of_read (h : t.read path = .ok content) : t.get? (Path.target path) ≠ none := by
  rw [read_eq_ok, look_eq_ok] at h
  simp [h.2]

theorem read_of_look {entry : FileEntry} (hs : s.look path = .ok entry)
    (ht : t.look path = .ok entry) : t.read path = s.read path := by
  rw [FileTree.read, FileTree.read, hs, ht]

/-! ## New directories -/

/-- Whether nothing happened at a place, or nothing but that a directory was made there. -/
def Spares (s t : FileTree) (place : Place) : Prop :=
  t.get? place = s.get? place ∨ (s.get? place = none ∧ t.get? place = some .directory)

theorem Spares.get? {place : Place} (h : Spares s t place) (hplace : s.get? place ≠ none) :
    t.get? place = s.get? place :=
  h.resolve_right fun hnew => hplace hnew.1

/-- Whether a tree is another one with directories where nothing was. -/
def Grows (s t : FileTree) : Prop := ∀ place, Spares s t place

theorem Grows.refl (t : FileTree) : Grows t t := fun _ => Or.inl rfl

theorem Grows.keepsDirectories (h : Grows s t) : KeepsDirectories s t := by
  intro place hplace
  rw [(h place).get? (by simp [hplace]), hplace]

theorem Spares.trans {place : Place} (hst : Spares s t place) (htu : Spares t u place) :
    Spares s u place := by
  rcases hst with hsame | ⟨hnone, hnew⟩
  · rw [Spares, ← hsame]
    exact htu
  · refine Or.inr ⟨hnone, ?_⟩
    rw [htu.get? (by simp [hnew]), hnew]

theorem Grows.trans (hst : Grows s t) (htu : Grows t u) : Grows s u :=
  fun place => (hst place).trans (htu place)

theorem isGiven_of_get? {place : Place} (h : t.get? place ≠ some .directory) :
    place.isGiven = false := by
  rw [FileTree.get?] at h
  split_ifs at h with hgiven
  · exact absurd rfl h
  · simpa using hgiven

theorem grows_makeDirectory (h : s.makeDirectory path = .ok t) : Grows s t := by
  rw [makeDirectory] at h
  cases hplace : s.newPlace path with
  | error cause =>
      rw [hplace] at h
      cases h
  | ok place =>
      rw [hplace] at h
      cases hnone : s.get? place with
      | some entry =>
          simp only [bind, Except.bind, hnone] at h
          cases h
      | none =>
          simp only [bind, Except.bind, hnone] at h
          cases h
          intro other
          by_cases hother : other = place
          · subst hother
            have hdirectory : s.get? other ≠ some .directory := by simp [hnone]
            exact Or.inr ⟨hnone, get?_put s other .directory (isGiven_of_get? hdirectory)⟩
          · exact Or.inl (get?_put_of_ne s place other .directory hother)

/-- Whether a tree is another one with one new directory. -/
def Makes (s t : FileTree) : Prop := ∃ path, s.makeDirectory path = .ok t

/-- Directories are made from the top down, one after another. -/
theorem makes_makeDirectoriesUpTo {fuel : Nat} (h : s.makeDirectoriesUpTo fuel path = .ok t) :
    Relation.ReflTransGen Makes s t := by
  induction fuel generalizing s t path with
  | zero => cases h
  | succ fuel ih =>
      -- a directory that cannot be made may be there
      have hsettle {r : FileTree} {error : FileError}
          (hr : (if r.isDirectory path then .ok r else .error error : Except FileError FileTree) =
            .ok t) : r = t := by
        split_ifs at hr
        cases hr
        rfl
      rw [makeDirectoriesUpTo] at h
      split_ifs at h with hempty
      · cases h
        exact .refl
      · split at h
        · rename_i made hmade
          cases h
          exact .single ⟨path, hmade⟩
        · cases hparent : (Path.parent? path).elim (.error .notFound)
              (makeDirectoriesUpTo fuel s) with
          | error cause =>
              rw [hparent] at h
              cases h
          | ok above =>
              rw [hparent] at h
              have habove : Relation.ReflTransGen Makes s above := by
                cases hpath : Path.parent? path with
                | none =>
                    rw [hpath] at hparent
                    cases hparent
                | some parent =>
                    rw [hpath] at hparent
                    exact ih hparent
              simp only [bind, Except.bind] at h
              split at h
              · rename_i made hmade
                cases h
                exact habove.tail ⟨path, hmade⟩
              · exact hsettle h ▸ habove
        · exact hsettle h ▸ .refl

theorem grows_makeDirectories (h : s.makeDirectories path = .ok t) : Grows s t := by
  have hmakes := makes_makeDirectoriesUpTo h
  clear h
  induction hmakes with
  | refl => exact Grows.refl s
  | tail _ hmade ih =>
      obtain ⟨below, hbelow⟩ := hmade
      exact ih.trans (grows_makeDirectory hbelow)

/-! ## Written files -/

theorem ofParts_parts (h : path ≠ "") : Path.ofParts (Path.parts path) = path := by
  unfold Path.ofParts
  split
  · rename_i hempty
    exact absurd (Path.eq_empty_of_parts hempty) h
  · exact Path.intercalate_parts path

/-- A path that does not end with a slash has none to trim. -/
theorem trimSlashes_eq {last : String} (h : (Path.parts path).getLast? = some last)
    (hlast : last ≠ "") : Path.trimSlashes path = path := by
  have hpath : path ≠ "" := by
    rintro rfl
    cases h
    exact hlast rfl
  rw [Path.trimSlashes]
  split
  · rename_i hnil
    exact absurd hnil (Path.parts_ne_nil path)
  · rename_i first rest hparts
    have hrest : (rest.reverse.dropWhile (· = "")).reverse = rest := by
      cases hreverse : rest.reverse with
      | nil =>
          rw [List.reverse_eq_nil_iff.mp hreverse]
          rfl
      | cons final others =>
          have hfinal : final = last := by
            rw [hparts, List.reverse_eq_cons_iff.mp hreverse, ← List.cons_append,
              List.getLast?_append] at h
            simpa using h
          rw [List.dropWhile_cons_of_neg (by simp [hfinal, hlast]), ← hreverse, List.reverse_reverse]
    rw [hrest, ← hparts, ofParts_parts hpath]

theorem newPlace_eq_ok {place : Place} (h : t.newPlace path = .ok place) :
    t.place (Path.trimSlashes path) = .ok place := by
  rw [newPlace] at h
  cases hplace : t.place (Path.trimSlashes path) with
  | error cause =>
      rw [hplace] at h
      cases h
  | ok found =>
      simp only [hplace, bind, Except.bind] at h
      split at h
      · cases h
        rfl
      · cases h
      · cases h

/-- A text is put at the place to which the path leads, where no directory is. -/
theorem write_eq_ok (h : s.write path content = .ok t) :
    s.place path = .ok (Path.target path) ∧ s.get? (Path.target path) ≠ some .directory ∧
      t = s.put (Path.target path) (.text content) := by
  rw [FileTree.write] at h
  cases hplace : s.newPlace path with
  | error cause =>
      rw [hplace] at h
      cases h
  | ok place =>
      simp only [hplace, bind, Except.bind] at h
      have hlast := List.getLast?_eq_some_getLast (Path.parts_ne_nil path)
      generalize (Path.parts path).getLast _ = last at hlast
      rw [hlast, Option.getD_some] at h
      by_cases hempty : last = ""
      · rw [if_pos hempty] at h
        cases h
      rw [if_neg hempty] at h
      have hway := newPlace_eq_ok hplace
      rw [trimSlashes_eq hlast hempty] at hway
      obtain rfl := place_eq_ok hway
      refine ⟨hway, ?_⟩
      split at h
      · cases h
      · rename_i hnone
        split_ifs at h
        cases h
        exact ⟨by simp [hnone], rfl⟩
      · rename_i entry hentry hother
        cases h
        refine ⟨?_, rfl⟩
        rw [hother]
        rintro ⟨⟩
        exact hentry rfl

theorem keepsDirectories_put {place : Place} (h : s.get? place ≠ some .directory)
    (entry : FileEntry) : KeepsDirectories s (s.put place entry) := by
  intro other hother
  have hne : other ≠ place := by
    rintro rfl
    exact h hother
  rw [get?_put_of_ne s place other entry hne, hother]

/-- What is written is read. -/
theorem read_of_write (h : s.write path content = .ok t) : t.read path = .ok content := by
  obtain ⟨hplace, hdirectory, rfl⟩ := write_eq_ok h
  have hway := (keepsDirectories_put hdirectory (.text content)).place hplace
  have hlook : (s.put (Path.target path) (.text content)).look path = .ok (.text content) :=
    look_eq_ok.mpr ⟨hway, get?_put s _ _ (isGiven_of_get? hdirectory)⟩
  rw [FileTree.read, hlook]
  rfl

end FileTree

end Chronicle
