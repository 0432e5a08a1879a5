import Chronicle.Command.Sources
import Chronicle.Proofs.Files.Proper

/-!
# What is found below a directory

The source files below a directory are told once each, by the names on the way to them. They are there,
and a path that is seen from the directory is made of those names.

## Implementation notes

The path of a source file begins with the directory's path, in which single dots in front are left out.
Seen from a directory that is named with such dots the file has no path, so that what is said of paths
here is said of those that there are.
-/

namespace Chronicle

namespace Command

variable {t : FileTree} {dir name : String} {place : Place}

/-! ## One step down -/

theorem below_current (name : String) : below "." name = name := rfl

theorem below_of_ne (h : dir ≠ ".") (name : String) : below dir name = Path.join dir name :=
  if_neg h

theorem below_ne_empty (hdir : dir ≠ "") (hname : dir = "." → name ≠ "")
    (hslash : '/' ∉ name.toList) : below dir name ≠ "" := by
  by_cases hdot : dir = "."
  · subst hdot
    exact hname rfl
  · rw [below_of_ne hdot, Path.join, if_neg (by simp [Path.startsWith_of_noSlash hslash])]
    split_ifs <;> simp [hdir]

/-- The parts with which the paths of what is below a directory begin. -/
def partsAbove (dir : String) : List String := if dir = "." then [] else Path.components dir

theorem partsAbove_below (hdir : dir ≠ "") (hname : dir = "." → name ≠ "")
    (hslash : '/' ∉ name.toList) :
    partsAbove (below dir name) = partsAbove dir ++ [name].filter (!Path.isVoid ·) := by
  have hparts : Path.parts name = [name] := Path.parts_of_noSlash hslash
  by_cases hdot : dir = "."
  · subst hdot
    have hempty : name ≠ "" := hname rfl
    rw [below_current, partsAbove, partsAbove, if_pos rfl, List.nil_append]
    split_ifs with hcurrent
    · simp [hcurrent, Path.isVoid]
    · rw [Path.components_eq, hparts, Path.componentsOf_cons (by simpa using hempty)]
      simp [Path.isVoid, hempty, hcurrent]
  · have hstart : name.startsWith "/" = false := Path.startsWith_of_noSlash hslash
    -- a path with a slash in it is not the one of the current directory
    have hcurrent : Path.join dir name ≠ "." := by
      intro hjoin
      obtain ⟨front, hfront, hparts', hwhole⟩ := Path.parts_join hdir hstart
      obtain ⟨first, more, rfl⟩ := List.exists_cons_of_ne_nil hfront
      rw [hjoin, hparts, show Path.parts "." = ["."] from rfl] at hwhole
      simp at hwhole
    rw [below_of_ne hdot, partsAbove, partsAbove, if_neg hcurrent, if_neg hdot,
      Path.components_join hdir hstart, hparts]

theorem place_below (hdir : t.place dir = .ok place) (hplace : t.get? place = some .directory)
    (hname : Path.IsName name) : t.place (below dir name) = .ok (place ++ [name]) := by
  have hstep : t.follow place [name] = .ok (place ++ [name]) := by
    rw [FileTree.follow, hplace]
    simp [hname.notVoid, hname.notAbove, FileTree.follow]
  have hparts : Path.parts name = [name] := Path.parts_of_noSlash hname.noSlash
  by_cases hdot : dir = "."
  · subst hdot
    obtain rfl : ([] : Place) = place := Except.ok.inj hdir
    rw [below_current, FileTree.place, if_neg hname.ne_empty, Path.start_eq, hparts]
    rw [Path.startOf_names (by simpa using hname), hstep]
  · have hne : dir ≠ "" := by
      rintro rfl
      cases hdir
    have hwhole : below dir name ≠ "" := below_ne_empty hne (by simp [hdot]) hname.noSlash
    obtain ⟨front, hfront, hdirParts, hwholeParts⟩ :=
      Path.parts_join hne (Path.startsWith_of_noSlash hname.noSlash)
    have hway := FileTree.follow_of_place hfront hdirParts hdir
    rw [below_of_ne hdot] at hwhole ⊢
    rw [FileTree.place, if_neg hwhole, Path.start_eq, hwholeParts, hparts,
      Path.startOf_append hfront, FileTree.follow_append, hway]
    exact hstep

/-! ## The way to a source file -/

/-- The ways that begin with a name, given the ways that go on from there. -/
def waysThrough (t : FileTree) (dir name : String) (deeper : List (List String)) :
    List (List String) :=
  (if isSourceName name then [[name]] else []) ++
    if t.isDirectory (below dir name) then deeper.map (name :: ·) else []

theorem mem_waysThrough {deeper : List (List String)} {names : List String}
    (h : names ∈ waysThrough t dir name deeper) :
    names = [name] ∨ ∃ others ∈ deeper, names = name :: others := by
  rcases List.mem_append.mp h with h | h
  · split_ifs at h
    · exact Or.inl (List.mem_singleton.mp h)
    · exact nomatch h
  · split_ifs at h
    · obtain ⟨others, hothers, rfl⟩ := List.mem_map.mp h
      exact Or.inr ⟨others, hothers, rfl⟩
    · exact nomatch h

theorem nodup_waysThrough {deeper : List (List String)} (hnodup : deeper.Nodup)
    (hnil : [] ∉ deeper) : (waysThrough t dir name deeper).Nodup := by
  have hdeeper : (deeper.map (name :: ·)).Nodup := hnodup.map List.cons_injective
  rw [waysThrough]
  split_ifs
  · rw [List.singleton_append, List.nodup_cons]
    refine ⟨fun hmem => ?_, hdeeper⟩
    obtain ⟨others, hothers, heq⟩ := List.mem_map.mp hmem
    exact hnil ((List.cons.inj heq).2 ▸ hothers)
  · exact List.nodup_singleton _
  · exact hdeeper
  · exact List.nodup_nil

/-- The names on the ways to the source files below a directory, which is so many levels deep at
most. -/
def waysWithin (t : FileTree) : Nat → String → List (List String)
  | 0, _ => []
  | fuel + 1, dir =>
    match t.place dir with
    | .error _ => []
    | .ok place => (t.names place).flatMap fun name =>
      waysThrough t dir name (waysWithin t fuel (below dir name))

theorem sourcesWithin_eq (fuel : Nat) (dir : String) :
    sourcesWithin t fuel dir = (waysWithin t fuel dir).map (·.foldl below dir) := by
  induction fuel generalizing dir with
  | zero => rfl
  | succ fuel ih =>
      rw [sourcesWithin, waysWithin]
      cases t.place dir with
      | error _ => rfl
      | ok place =>
          simp only [List.map_flatMap, waysThrough, List.map_append]
          congr 1
          funext name
          congr 1
          · split_ifs <;> rfl
          · split_ifs
            · rw [ih, List.map_map]
              rfl
            · rfl

/-- What is known of the names on a way from a directory to something below it. -/
structure Route (t : FileTree) (dir : String) (names : List String) : Prop where
  notEmpty : names ≠ []
  areNames : ∀ name ∈ names, Path.IsName name
  isThere : t.contains (names.foldl below dir) = true

theorem route_singleton (h : t.Proper) (hplace : t.place dir = .ok place)
    (hname : name ∈ t.names place) : Route t dir [name] where
  notEmpty := List.cons_ne_nil _ _
  areNames := by simpa using h.isName hname
  isThere := by
    obtain ⟨entry, hentry⟩ := Option.ne_none_iff_exists'.mp (FileTree.get?_of_mem_names hname)
    have hbelow := place_below hplace (h.directory hname) (h.isName hname)
    have hlook : t.look (below dir name) = .ok entry := by
      rw [FileTree.look_eq_ok, ← FileTree.place_eq_ok hbelow]
      exact ⟨hbelow, hentry⟩
    rw [List.foldl_cons, List.foldl_nil, FileTree.contains, hlook]
    rfl

theorem route_of_mem_waysWithin (h : t.Proper) {fuel : Nat} {names : List String}
    (hnames : names ∈ waysWithin t fuel dir) : Route t dir names := by
  induction fuel generalizing dir names with
  | zero => exact nomatch hnames
  | succ fuel ih =>
      rw [waysWithin] at hnames
      split at hnames
      · exact nomatch hnames
      · rename_i place hplace
        obtain ⟨name, hname, hway⟩ := List.mem_flatMap.mp hnames
        rcases mem_waysThrough hway with rfl | ⟨others, hothers, rfl⟩
        · exact route_singleton h hplace hname
        · have hroute := ih hothers
          exact ⟨List.cons_ne_nil _ _,
            List.forall_mem_cons.mpr ⟨h.isName hname, hroute.areNames⟩, hroute.isThere⟩

/-- Ways are told apart by their first names, and by what follows them. -/
theorem nodup_waysWithin (h : t.Proper) (fuel : Nat) (dir : String) :
    (waysWithin t fuel dir).Nodup := by
  induction fuel generalizing dir with
  | zero => exact List.nodup_nil
  | succ fuel ih =>
      rw [waysWithin]
      split
      · exact List.nodup_nil
      · rename_i place hplace
        rw [List.nodup_flatMap]
        constructor
        · intro name hname
          exact nodup_waysThrough (ih (below dir name)) fun hnil =>
            (route_of_mem_waysWithin h hnil).notEmpty rfl
        · apply (h.nodup_names place).imp
          intro first second hne names hfirst hsecond
          have hhead {name : String} {deeper : List (List String)}
              (hmem : names ∈ waysThrough t dir name deeper) : names.head? = some name := by
            rcases mem_waysThrough hmem with rfl | ⟨others, -, rfl⟩ <;> rfl
          exact hne (Option.some.inj ((hhead hfirst).symm.trans (hhead hsecond)))

theorem partsAbove_foldl {names : List String} (hdir : dir ≠ "")
    (hnames : ∀ name ∈ names, Path.IsName name) :
    partsAbove (names.foldl below dir) = partsAbove dir ++ names := by
  induction names generalizing dir with
  | nil => simp
  | cons name names ih =>
      obtain ⟨hname, hnames⟩ := List.forall_mem_cons.mp hnames
      rw [List.foldl_cons,
        ih (below_ne_empty hdir (fun _ => hname.ne_empty) hname.noSlash) hnames,
        partsAbove_below hdir (fun _ => hname.ne_empty) hname.noSlash]
      simp [hname.notVoid]

theorem components_foldl {names : List String} (hdir : dir ≠ "")
    (hnames : ∀ name ∈ names, Path.IsName name) (hne : names ≠ []) :
    Path.components (names.foldl below dir) = partsAbove dir ++ names := by
  have habove := partsAbove_foldl hdir hnames
  rw [← habove, partsAbove, if_neg]
  intro hdot
  rw [hdot, partsAbove, if_pos rfl] at habove
  simp [hne] at habove

/-! ## The way to the directory -/

theorem partsAbove_approach {parts : List String} {way : String} (hdir : dir ≠ "")
    (hparts : ∀ part ∈ parts, '/' ∉ part.toList) (h : approach t dir parts = some way) :
    way ≠ "" ∧ partsAbove way = partsAbove dir ++ parts.filter (!Path.isVoid ·) := by
  induction parts generalizing dir with
  | nil =>
      cases h
      simp [hdir]
  | cons part parts ih =>
      obtain ⟨hpart, hparts⟩ := List.forall_mem_cons.mp hparts
      rw [approach] at h
      by_cases hthere :
          (if Path.isDots part then t.isDirectory dir else t.contains (below dir part)) = true
      · simp only [hthere, if_true] at h
        have hempty : dir = "." → part ≠ "" := by
          rintro rfl rfl
          have hnowhere : t.contains "" = false := rfl
          rw [if_neg (by decide), below_current, hnowhere] at hthere
          cases hthere
        obtain ⟨hway, hwhole⟩ := ih (below_ne_empty hdir hempty hpart) hparts h
        refine ⟨hway, ?_⟩
        rw [hwhole, partsAbove_below hdir hempty hpart, List.append_assoc, ← List.filter_append,
          List.singleton_append]
      · simp [hthere] at h

/-- The path under which the files of a directory are looked for. -/
def wayTo (t : FileTree) (dir : String) : Option String :=
  match Path.parts dir with
  | "" :: rest => approach t "/" rest
  | parts => approach t "." parts

theorem sources_eq (t : FileTree) (dir : String) :
    sources t dir = (wayTo t dir).elim [] (sourcesWithin t (t.entries.length + 1)) := rfl

/-- Where a directory is reached, and the path of what is there is seen from the directory, nothing but
the names on the way are seen. -/
theorem relativeTo?_of_approach {way rest : String} {names : List String} (hdir : dir ≠ "")
    (hway : wayTo t dir = some way)
    (hnames : ∀ name ∈ names, Path.IsName name) (hne : names ≠ [])
    (h : Path.relativeTo? (names.foldl below way) dir = some rest) :
    rest = "/".intercalate names := by
  obtain ⟨seen, hseen, rfl⟩ := Option.map_eq_some_iff.mp h
  rw [Path.dropBase_eq_some] at hseen
  have hslash : ∀ part ∈ Path.parts dir, '/' ∉ part.toList := fun _ => Path.noSlash_of_mem_parts
  suffices hsame : names = seen by rw [hsame]
  unfold wayTo at hway
  split at hway
  · rename_i more hparts
    rw [hparts] at hslash
    obtain ⟨hwayEmpty, habove⟩ := partsAbove_approach (by decide)
      (fun part hpart => hslash part (List.mem_cons_of_mem _ hpart)) hway
    rw [components_foldl hwayEmpty hnames hne, habove, Path.components_of_parts hdir hparts] at hseen
    exact List.append_cancel_left hseen
  · rename_i parts hroot
    obtain ⟨hwayEmpty, habove⟩ := partsAbove_approach (by decide) hslash hway
    obtain ⟨first, more, hparts⟩ := List.exists_cons_of_ne_nil (Path.parts_ne_nil dir)
    rw [components_foldl hwayEmpty hnames hne, habove, Path.components_of_parts hdir hparts,
      hparts] at hseen
    by_cases hfirst : Path.isVoid first = true
    · -- a single dot in front of the directory is not in front of what is below it
      exfalso
      have hmem : first ∈ partsAbove "." ++ (first :: more).filter (!Path.isVoid ·) ++ names := by
        rw [hseen]
        exact List.mem_cons_self
      rw [partsAbove, if_pos rfl, List.nil_append, List.mem_append, List.mem_filter] at hmem
      rcases hmem with hmem | hmem
      · simp [hfirst] at hmem
      · exact absurd (hnames first hmem).notVoid (by simp [hfirst])
    · rw [partsAbove, if_pos rfl, List.nil_append,
        List.filter_cons_of_pos (by simpa using hfirst)] at hseen
      exact List.append_cancel_left hseen

/-- The source files below a directory are those at the ends of different ways. -/
theorem exists_ways (h : t.Proper) (hdir : t.isDirectory dir = true) :
    ∃ (way : String) (ways : List (List String)),
      sources t dir = ways.map (fun names => names.foldl below way) ∧ ways.Nodup ∧
      ∀ names ∈ ways, Route t way names ∧
        ∀ rest, Path.relativeTo? (names.foldl below way) dir = some rest →
          rest = "/".intercalate names := by
  have hne : dir ≠ "" := by
    rintro rfl
    cases hdir
  rw [sources_eq]
  cases hway : wayTo t dir with
  | none => exact ⟨"", [], rfl, List.nodup_nil, fun _ hnames => nomatch hnames⟩
  | some way =>
      refine ⟨way, waysWithin t (t.entries.length + 1) way, sourcesWithin_eq _ way,
        nodup_waysWithin h _ way, ?_⟩
      intro names hnames
      have hroute := route_of_mem_waysWithin h hnames
      exact ⟨hroute, fun rest => relativeTo?_of_approach hne hway hroute.areNames hroute.notEmpty⟩

end Command

end Chronicle
