import Chronicle.Files.Tree
import Mathlib.Tactic.SplitIfs

/-!
# Where paths lead

The parts of a path that is put together from others, and the place that it leads to in any tree in
which there is a way to it.

## Implementation notes

A path that ends with a slash has an empty part at its end. What is put below it takes the place of that
part, so that a path and what is below it have the parts of the path in common up to such a part.
-/

namespace Chronicle

namespace Path

/-- Whether a text can be the name of a file or of a directory. -/
structure IsName (name : String) : Prop where
  noSlash : '/' ∉ name.toList
  notVoid : isVoid name = false
  notAbove : name ≠ ".."

theorem IsName.ne_empty {name : String} (h : IsName name) : name ≠ "" := by
  rintro rfl
  exact absurd h.notVoid (by decide)

/-! ## Parts -/

theorem parts_ne_nil (path : String) : parts path ≠ [] := by
  simp [parts]

theorem parts_of_noSlash {name : String} (h : '/' ∉ name.toList) : parts name = [name] := by
  rw [parts, List.splitOn_eq_singleton h, List.map_singleton, String.ofList_toList]

theorem parts_append (front back : String) :
    parts (front ++ "/" ++ back) = parts front ++ parts back := by
  have hslash : (front ++ "/" ++ back).toList = front.toList ++ '/' :: back.toList := by
    simp [String.toList_append]
  rw [parts, hslash, List.splitOn_append_cons_self, List.map_append]
  rfl

/-- No part has a slash in it. -/
theorem noSlash_of_mem_parts {path part : String} (h : part ∈ parts path) :
    '/' ∉ part.toList := by
  obtain ⟨chars, hchars, rfl⟩ := List.mem_map.mp h
  rw [String.toList_ofList]
  clear h
  generalize path.toList = text at hchars
  induction text generalizing chars with
  | nil =>
      obtain rfl : chars = [] := by simpa using hchars
      simp
  | cons c text ih =>
      rw [List.splitOn_cons_eq_if_modifyHead] at hchars
      split_ifs at hchars with hc
      · rcases List.mem_cons.mp hchars with rfl | hchars
        · simp
        · exact ih _ hchars
      · obtain ⟨first, more, hsplit⟩ := List.exists_cons_of_ne_nil (List.splitOn_ne_nil '/' text)
        rw [hsplit, List.modifyHead_cons] at hchars
        rcases List.mem_cons.mp hchars with rfl | hchars
        · have hfirst := ih first (hsplit ▸ List.mem_cons_self)
          have hne : c ≠ '/' := by simpa using hc
          simp [hfirst, hne.symm]
        · exact ih _ (hsplit ▸ List.mem_cons_of_mem _ hchars)

theorem parts_intercalate {names : List String} (hnames : ∀ name ∈ names, '/' ∉ name.toList)
    (hne : names ≠ []) : parts ("/".intercalate names) = names := by
  have hslashes : ∀ chars ∈ names.map String.toList, '/' ∉ chars := by
    intro chars hchars
    obtain ⟨name, hname, rfl⟩ := List.mem_map.mp hchars
    exact hnames name hname
  have hsep : "/".toList = ['/'] := rfl
  rw [parts, String.toList_intercalate, hsep, List.splitOn_intercalate '/' hslashes (by simp [hne]),
    List.map_map]
  simp [Function.comp_def]

theorem intercalate_parts (path : String) : "/".intercalate (parts path) = path := by
  have hsep : "/".toList = ['/'] := rfl
  apply String.toList_injective
  rw [String.toList_intercalate, hsep, parts, List.map_map]
  simp [Function.comp_def]

theorem eq_empty_of_parts {path : String} (h : parts path = [""]) : path = "" := by
  rw [← intercalate_parts path, h]
  rfl

/-! ## Paths below another one -/

theorem startsWith_of_noSlash {path : String} (h : '/' ∉ path.toList) :
    path.startsWith "/" = false := by
  rw [String.startsWith_string_eq_false_iff]
  rintro ⟨rest, hrest⟩
  apply h
  rw [← hrest]
  simp

theorem exists_of_endsWith {path : String} (h : path.endsWith "/" = true) :
    ∃ front, path = front ++ "/" := by
  have hslice : path.toSlice.endsWith "/" = true := h
  rw [String.Slice.endsWith_string_iff] at hslice
  obtain ⟨front, hfront⟩ := hslice
  refine ⟨String.ofList front, String.toList_injective ?_⟩
  rw [String.toList_append, String.toList_ofList]
  simpa using hfront.symm

/-- A path below another one has the parts of both, one after another, but for an empty part where the
upper one ends. -/
theorem parts_join {base path : String} (hbase : base ≠ "") (h : path.startsWith "/" = false) :
    ∃ front, front ≠ [] ∧ (parts base = front ∨ parts base = front ++ [""]) ∧
      parts (join base path) = front ++ parts path := by
  have hslash : ¬path.startsWith "/" = true := by simp [h]
  by_cases hend : base.endsWith "/" = true
  · obtain ⟨front, rfl⟩ := exists_of_endsWith hend
    refine ⟨parts front, parts_ne_nil _, Or.inr ?_, ?_⟩
    · have hparts := parts_append front ""
      rwa [String.append_empty] at hparts
    · rw [join, if_neg hslash, if_pos (by simp [hend]), parts_append]
  · refine ⟨parts base, parts_ne_nil _, Or.inl rfl, ?_⟩
    rw [join, if_neg hslash, if_neg (by simp [hbase, hend]), parts_append]

end Path

/-! ## Places -/

namespace Place

/-- The place to which parts of a path lead from a place, whatever is there. -/
def along : Place → List String → Place
  | place, [] => place
  | place, part :: rest =>
    if Path.isVoid part then along place rest
    else if part = ".." then along place.above rest
    else along (place ++ [part]) rest

theorem along_append (place : Place) (front back : List String) :
    place.along (front ++ back) = (place.along front).along back := by
  induction front generalizing place with
  | nil => rfl
  | cons part front ih =>
      simp only [List.cons_append, along]
      split_ifs <;> exact ih _

theorem along_names (place : Place) {names : List String} (h : ∀ name ∈ names, Path.IsName name) :
    place.along names = place ++ names := by
  induction names generalizing place with
  | nil => simp [along]
  | cons name names ih =>
      obtain ⟨hname, hnames⟩ := List.forall_mem_cons.mp h
      rw [along, if_neg (by simp [hname.notVoid]), if_neg hname.notAbove, ih _ hnames,
        List.append_assoc, List.singleton_append]

end Place

namespace Path

/-- The place where parts of a path begin, and the parts that are left. -/
def startOf : List String → Place × List String
  | "" :: rest => ([""], rest)
  | parts => ([], parts)

/-- The place to which the parts of a path lead. -/
def targetOf (parts : List String) : Place := (startOf parts).1.along (startOf parts).2

/-- The place to which a path leads, if there is a way. -/
def target (path : String) : Place := targetOf (parts path)

theorem start_eq (path : String) : FileTree.start path = startOf (parts path) := rfl

theorem startOf_append {front : List String} (h : front ≠ []) (back : List String) :
    startOf (front ++ back) = ((startOf front).1, (startOf front).2 ++ back) := by
  obtain ⟨first, more, rfl⟩ := List.exists_cons_of_ne_nil h
  rw [List.cons_append]
  unfold startOf
  split <;> split <;> simp_all

theorem startOf_names {names : List String} (h : ∀ name ∈ names, IsName name) :
    startOf names = ([], names) := by
  unfold startOf
  split
  · exact absurd rfl (h "" List.mem_cons_self).ne_empty
  · rfl

theorem targetOf_append {front : List String} (h : front ≠ []) (back : List String) :
    targetOf (front ++ back) = (targetOf front).along back := by
  rw [targetOf, startOf_append h, targetOf, Place.along_append]

/-- A path below another one leads on from where that one leads. -/
theorem target_join {base path : String} (hbase : base ≠ "") (h : path.startsWith "/" = false) :
    target (join base path) = (target base).along (parts path) := by
  obtain ⟨front, hne, hfront, hparts⟩ := parts_join hbase h
  have htarget : target base = targetOf front := by
    rcases hfront with hfront | hfront
    · rw [target, hfront]
    · rw [target, hfront, targetOf_append hne]
      rfl
  rw [target, hparts, targetOf_append hne, htarget]

/-! ## Components -/

/-- The parts that count among those of a path. -/
def componentsOf : List String → List String
  | [] => []
  | [""] => []
  | first :: rest => first :: rest.filter (!isVoid ·)

theorem components_eq (path : String) : components path = componentsOf (parts path) := rfl

theorem componentsOf_cons {first : String} {rest : List String} (h : first :: rest ≠ [""]) :
    componentsOf (first :: rest) = first :: rest.filter (!isVoid ·) := by
  unfold componentsOf
  split
  · contradiction
  · contradiction
  · rename_i heq
    cases heq
    rfl

theorem components_of_parts {path first : String} {rest : List String} (h : path ≠ "")
    (hparts : parts path = first :: rest) :
    components path = first :: rest.filter (!isVoid ·) := by
  rw [components_eq, hparts, componentsOf_cons]
  intro hempty
  exact h (eq_empty_of_parts (hparts.trans hempty))

/-- Below another path, the parts that count are those of both. -/
theorem components_join {base path : String} (hbase : base ≠ "")
    (h : path.startsWith "/" = false) :
    components (join base path) = components base ++ (parts path).filter (!isVoid ·) := by
  obtain ⟨front, hne, hfront, hparts⟩ := parts_join hbase h
  obtain ⟨first, more, rfl⟩ := List.exists_cons_of_ne_nil hne
  have hbase : components base = first :: more.filter (!isVoid ·) := by
    rcases hfront with hfront | hfront
    · exact components_of_parts hbase hfront
    · rw [List.cons_append] at hfront
      rw [components_of_parts hbase hfront, List.filter_append]
      simp [isVoid]
  have hwhole : first :: (more ++ parts path) ≠ [""] := by
    simp [parts_ne_nil]
  rw [components_eq, hparts, List.cons_append, componentsOf_cons hwhole, hbase, List.filter_append,
    List.cons_append]

theorem dropBase_eq_some {base path rest : List String} :
    dropBase base path = some rest ↔ path = base ++ rest := by
  induction base generalizing path with
  | nil => simp [dropBase, eq_comm]
  | cons part base ih =>
      cases path with
      | nil => simp [dropBase]
      | cons first path =>
          rw [dropBase]
          split_ifs with hpart
          · rw [ih, hpart, List.cons_append, List.cons.injEq, and_iff_right rfl]
          · simp [Ne.symm hpart]

end Path

end Chronicle
