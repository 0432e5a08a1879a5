import Chronicle.Proofs.Command.Jobs
import Chronicle.Proofs.Command.Sources

/-!
# The plan of a run

What a run finds before its first job: the naming and the jobs. The outputs of the jobs are different files,
and the inputs are there, but for the input of a single job.

## Implementation notes

Outputs are compared by the places to which their paths lead, since one place has many paths.
-/

namespace Chronicle

namespace Command

open Enhance

variable {files : FileTree} {naming : Naming} {i : Invocation} {jobs : List Job}

/-- The naming of a run. -/
def namingOf (files : FileTree) : Option String → Except Failure Naming
  | none => .ok {}
  | some path =>
    match files.read path with
    | .error error => .error ⟨"Failed to read config file " ++ path, error.message⟩
    | .ok content =>
      match namingOfText? content with
      | some naming => .ok naming
      | none => .error ⟨"Invalid config file " ++ path, none⟩

/-- The naming and the jobs of a run. -/
def planOf (i : Invocation) (files : FileTree) : Except Failure (Naming × List Job) :=
  (namingOf files i.config).bind fun naming => (jobsOf i files).map fun jobs => (naming, jobs)

theorem runs_naming (files : FileTree) (config : Option String) :
    Runs (config.elim (pure {}) loadSettings) files (namingOf files config) files [] := by
  cases config with
  | none => exact runs_pure _
  | some path =>
      rw [namingOf, Option.elim, loadSettings]
      have hread := runs_readFile files path fun error =>
        ⟨"Failed to read config file " ++ path, error.message⟩
      cases hcontent : files.read path with
      | error error =>
          rw [hcontent] at hread
          exact hread.bind_error
      | ok content =>
          rw [hcontent] at hread
          refine hread.bind_nil ?_
          dsimp only
          cases namingOfText? content with
          | none => exact runs_throw _
          | some naming => exact (runs_log files _ _ _).bind_nil (runs_pure naming)

/-! ## Outputs -/

theorem startsWith_intercalate {names : List String} (hnames : ∀ name ∈ names, Path.IsName name)
    (hne : names ≠ []) : ("/".intercalate names).startsWith "/" = false := by
  rw [String.startsWith_string_eq_false_iff]
  rintro ⟨rest, hrest⟩
  have hwhole : "/".intercalate names = "" ++ "/" ++ String.ofList rest := by
    apply String.toList_injective
    rw [← hrest]
    simp
  have hparts := Path.parts_intercalate (fun name hname => (hnames name hname).noSlash) hne
  rw [hwhole, Path.parts_append] at hparts
  have hempty : "" ∈ names := by
    rw [← hparts]
    exact List.mem_append_left _ List.mem_cons_self
  exact (hnames "" hempty).ne_empty rfl

/-- The place at which the outputs of a run are. -/
def placeOf (root : String) : Place := if root = "" then [] else Path.target root

theorem target_output (root : String) {names : List String}
    (hnames : ∀ name ∈ names, Path.IsName name) (hne : names ≠ []) :
    Path.target (Path.join root ("/".intercalate names)) = placeOf root ++ names := by
  have hstart := startsWith_intercalate hnames hne
  have hparts := Path.parts_intercalate (fun name hname => (hnames name hname).noSlash) hne
  rw [placeOf]
  split_ifs with hroot
  · subst hroot
    have hjoin : Path.join "" ("/".intercalate names) = "/".intercalate names := by
      rw [Path.join, if_neg (by simp [hstart]), if_pos (by simp), String.empty_append]
    rw [hjoin, Path.target, hparts, Path.targetOf, Path.startOf_names hnames,
      Place.along_names _ hnames]
  · rw [Path.target_join hroot hstart, hparts, Place.along_names _ hnames]

/-! ## Jobs -/

/-- Below a directory the jobs are found at the ends of different ways, and what is written goes the same
ways from the output directory. -/
theorem jobsOf_directory (hproper : files.Proper) (hdir : files.isDirectory i.input = true)
    {root : String} (hroot : i.output = some root) (h : jobsOf i files = .ok jobs) :
    ∃ (way : String) (ways : List (List String)),
      jobs = ways.map (fun names =>
        ⟨names.foldl below way, some (Path.join root ("/".intercalate names))⟩) ∧
      ways.Nodup ∧ ∀ names ∈ ways, Route files way names := by
  obtain ⟨way, ways, hsources, hnodup, hways⟩ := exists_ways hproper hdir
  refine ⟨way, ways, ?_, hnodup, fun names hnames => (hways names hnames).1⟩
  rw [jobsOf, hroot, hdir, hsources] at h
  have hjobs := mapM_eq_ok.mp h
  rw [List.forall₂_map_left_iff] at hjobs
  suffices heq : List.Forall₂ (· = ·) (ways.map fun names =>
      (⟨names.foldl below way, some (Path.join root ("/".intercalate names))⟩ : Job)) jobs by
    rw [List.forall₂_eq_eq_eq] at heq
    exact heq.symm
  rw [List.forall₂_map_left_iff]
  have hmem := (List.forall₂_and_left (p := (· ∈ ways)) ways jobs).mpr ⟨fun _ hmem => hmem, hjobs⟩
  refine hmem.imp ?_
  rintro names job ⟨hnames, hjob⟩
  dsimp only at hjob
  cases hrest : Path.relativeTo? (names.foldl below way) i.input with
  | none =>
      rw [hrest] at hjob
      cases hjob
  | some rest =>
      rw [hrest] at hjob
      cases hjob
      rw [(hways names hnames).2 rest hrest]

/-- The files that a run looks at. -/
def inputsOf (files : FileTree) (input : String) : List String :=
  if files.isDirectory input then sources files input else [input]

/-- Where the result of a file goes, if there is an output. -/
def outputOf (i : Invocation) (files : FileTree) (path : String) : Option String :=
  i.output.bind fun root =>
    if files.isDirectory i.input then (Path.relativeTo? path i.input).map (Path.join root) else some root

/-- A plan has one job for each file that the run looks at. -/
theorem jobs_of_plan (h : planOf i files = .ok (naming, jobs)) :
    jobs = (inputsOf files i.input).map fun path => ⟨path, outputOf i files path⟩ := by
  obtain ⟨_, -, h⟩ := bind_eq_ok.mp h
  obtain ⟨_, h, heq⟩ := map_eq_ok.mp h
  cases heq
  rw [jobsOf] at h
  split at h
  · cases h
  · by_cases hdir : files.isDirectory i.input = true
    · rw [if_pos hdir] at h
      rw [inputsOf, if_pos hdir]
      have hjobs := mapM_eq_ok.mp h
      suffices heq : List.Forall₂ (fun job path => job = ⟨path, outputOf i files path⟩) jobs
          (sources files i.input) by
        rwa [← List.forall₂_eq_eq_eq, List.forall₂_map_right_iff]
      refine hjobs.flip.imp ?_
      intro job path hjob
      rw [outputOf]
      cases houtput : i.output with
      | none =>
          rw [houtput] at hjob
          cases hjob
          rfl
      | some root =>
          rw [houtput] at hjob
          dsimp only at hjob
          cases hrest : Path.relativeTo? path i.input with
          | none =>
              rw [hrest] at hjob
              cases hjob
          | some rest =>
              rw [hrest] at hjob
              cases hjob
              rw [Option.bind_some, if_pos hdir, Option.map_some]
    · rw [if_neg hdir] at h
      cases h
      rw [inputsOf, if_neg hdir, List.map_singleton, outputOf]
      cases i.output with
      | none => rfl
      | some root => rw [Option.bind_some, if_neg hdir]

/-- Without an output a check has a plan as soon as it has a naming. -/
theorem planOf_of_no_output (hcheck : i.check = true) (houtput : i.output = none) :
    planOf i files = (namingOf files i.config).map fun naming =>
      (naming, (inputsOf files i.input).map fun path => ⟨path, none⟩) := by
  have hjobs : jobsOf i files = .ok ((inputsOf files i.input).map fun path => ⟨path, none⟩) := by
    rw [jobsOf, if_neg (by simp [hcheck]), inputsOf, houtput]
    by_cases hdir : files.isDirectory i.input = true
    · rw [if_pos hdir, if_pos hdir]
      exact List.mapM_pure
    · rw [if_neg hdir, if_neg hdir]
      rfl
  rw [planOf, hjobs]
  cases namingOf files i.config <;> rfl

theorem planOf_check (i : Invocation) (files : FileTree) (h : i.output.isSome = true) :
    planOf { i with check := true } files = planOf i files := by
  obtain ⟨root, hroot⟩ := Option.isSome_iff_exists.mp h
  rw [planOf, planOf, jobsOf, jobsOf, hroot]
  rfl

theorem isSome_of_plan (hcheck : i.check = false) (h : jobsOf i files = .ok jobs) :
    i.output.isSome = true := by
  cases houtput : i.output with
  | none =>
      rw [jobsOf, houtput, hcheck] at h
      cases h
  | some root => rfl

/-- Jobs are arranged as they should be if no output is an input. -/
theorem arranged_of_plan (hproper : files.Proper) (hcheck : i.check = false)
    (h : jobsOf i files = .ok jobs)
    (hapart : ∀ job ∈ jobs, ∀ other ∈ jobs, ∀ output ∈ other.output,
      Path.target job.input ≠ Path.target output) : Arranged files jobs := by
  obtain ⟨root, hroot⟩ := Option.isSome_iff_exists.mp (isSome_of_plan hcheck h)
  by_cases hdir : files.isDirectory i.input = true
  · obtain ⟨way, ways, rfl, hnodup, hways⟩ := jobsOf_directory hproper hdir hroot h
    constructor
    · intro job hjob
      obtain ⟨names, -, rfl⟩ := List.mem_map.mp hjob
      exact ⟨_, rfl⟩
    · intro job hjob
      obtain ⟨names, hnames, rfl⟩ := List.mem_map.mp (List.mem_of_mem_tail hjob)
      exact (hways names hnames).isThere
    · rw [List.pairwise_map]
      refine (List.Pairwise.and_mem.mp hnodup).imp ?_
      rintro first second ⟨hfirst, hsecond, hne⟩ output ⟨⟩ other ⟨⟩
      have hone := hways first hfirst
      have htwo := hways second hsecond
      rw [target_output root hone.areNames hone.notEmpty, target_output root htwo.areNames htwo.notEmpty]
      exact fun heq => hne (List.append_cancel_left heq)
    · exact hapart
  · rw [jobsOf, hroot, if_neg (by simp), if_neg hdir] at h
    cases h
    constructor
    · intro job hjob
      exact ⟨root, by rw [List.mem_singleton.mp hjob]⟩
    · exact fun _ hjob => nomatch hjob
    · exact List.pairwise_singleton _ _
    · exact hapart

end Command

end Chronicle
