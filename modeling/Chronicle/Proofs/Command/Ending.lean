import Chronicle.Proofs.Command.Plan
import Mathlib.Algebra.GroupWithZero.Nat

/-!
# How a run ends

A run that writes does all jobs or those before one at which it stops: their outputs hold what comes of
their inputs, and no other file is created or changed. A run that only checks changes nothing and ends in
the same way, unless the run that writes stops because it cannot write.

## Implementation notes

What a check cannot find is that an output cannot be written. When an input cannot be read, the two runs
say so in different words.
-/

namespace Chronicle

namespace Command

open Enhance

variable {files after : FileTree} {naming : Naming} {i : Invocation} {jobs : List Job}
  {arguments checking : List String} {lines : List String}

/-! ## The summary -/

/-- The line that sums up some results. -/
def sums (results : List (String × Report)) : String :=
  toString results.length ++ " files: " ++
    toString (results.map fun result => result.2.enhanced.length).sum ++ " classes enhanced, " ++
    toString (results.map fun result => result.2.skipped.length).sum ++ " already enhanced, " ++
    toString (results.map fun result => result.2.total).sum ++ " setters rewritten"

theorem total_eq_sum (report : Report) :
    report.total = (report.enhanced.map fun entry => entry.2.length).sum := by
  rw [Report.total, List.sum_eq_foldl, List.foldl_map]

theorem total_concat (reports : List Report) :
    (Report.concat reports).total = (reports.map Report.total).sum := by
  induction reports with
  | nil => rfl
  | cons report reports ih =>
      have happend : (Report.concat (report :: reports)).enhanced =
          report.enhanced ++ (Report.concat reports).enhanced := rfl
      rw [total_eq_sum, happend, List.map_append, List.sum_append, ← total_eq_sum, ← total_eq_sum,
        ih, List.map_cons, List.sum_cons]

theorem summary_reportAfter (results : List (String × Report)) :
    summary results.length (reportAfter {} results) = sums results := by
  rw [summary, sums, reportAfter, Report.empty_append, total_concat, Report.concat,
    List.length_flatMap, List.length_flatMap, List.map_map, List.map_map, List.map_map]
  rfl

/-! ## From the jobs to the command -/

theorem runs_invocation_error {failure : Failure} (h : planOf i files = .error failure) :
    Runs i.run files (.error failure) files [] := by
  have hnaming := runs_naming files i.config
  rw [Invocation.run]
  rw [planOf] at h
  cases hcase : namingOf files i.config with
  | error cause =>
      rw [hcase] at h hnaming
      cases h
      exact hnaming.bind_error
  | ok naming =>
      rw [hcase] at h hnaming
      refine hnaming.bind_nil (runs_get fun output => ?_)
      have hjobs := runs_liftM files (jobsOf i files)
      cases hcase : jobsOf i files with
      | error cause =>
          rw [hcase] at hjobs
          simp only [Except.bind, hcase] at h
          cases h
          exact hjobs.bind_error
      | ok jobs =>
          simp only [Except.bind, hcase] at h
          cases h

theorem runs_invocation {result : Except Failure Report} (h : planOf i files = .ok (naming, jobs))
    (hjobs : Runs (doJobs i naming jobs {}) files result after lines) :
    Runs i.run files (result.map fun _ => ()) after
      (lines ++ result.toOption.elim [] fun report => [summary jobs.length report]) := by
  obtain ⟨found, hfound, h⟩ := bind_eq_ok.mp h
  obtain ⟨jobs, hplan, heq⟩ := map_eq_ok.mp h
  cases heq
  have hrest : Runs (doJobs i naming jobs {} >>= fun report =>
      print (.line (summary jobs.length report))) files (result.map fun _ => ()) after
      (lines ++ result.toOption.elim [] fun report => [summary jobs.length report]) := by
    cases result with
    | ok report => exact hjobs.bind (runs_line after (summary jobs.length report))
    | error failure =>
        rw [Except.toOption, Option.elim, List.append_nil]
        exact hjobs.bind_error
  rw [Invocation.run]
  refine (hfound ▸ runs_naming files i.config).bind_nil (runs_get fun output => ?_)
  rw [hplan]
  refine (runs_liftM files (.ok jobs)).bind_nil ?_
  dsimp only
  split_ifs
  · exact (runs_log files _ _ _).bind_nil hrest
  · exact hrest

/-- Whether a command ends with a failure after some lines are printed, or without one after one more
line. -/
def Outcome.Ends (o : Outcome) (lines : List String) (last : String) : Option Failure → Prop
  | none => o.code = 0 ∧ o.errors = [] ∧ o.lines = lines ++ [last]
  | some failure => o.code = 1 ∧ o.errors = failure.lines ∧ o.lines = lines

theorem files_of_runs {result : Except Failure Unit}
    (hrun : Request.ofArguments? arguments = some (.run i)) (h : Runs i.run files result after lines) :
    (run arguments files).files = after := by
  obtain ⟨more, hmore, -⟩ := h []
  rw [run, hrun]
  dsimp only
  rw [hmore]
  cases result <;> rfl

theorem ends_of_runs {last : String}
    (hrun : Request.ofArguments? arguments = some (.run i))
    (h : Runs i.run files (.ok ()) after (lines ++ [last])) :
    (run arguments files).Ends lines last none := by
  obtain ⟨more, hmore, hlines⟩ := h []
  rw [run, hrun]
  dsimp only
  rw [hmore]
  exact ⟨rfl, rfl, hlines⟩

theorem ends_of_runs_error {last : String} {failure : Failure}
    (hrun : Request.ofArguments? arguments = some (.run i))
    (h : Runs i.run files (.error failure) after lines) :
    (run arguments files).Ends lines last (some failure) := by
  obtain ⟨more, hmore, hlines⟩ := h []
  rw [run, hrun]
  dsimp only
  rw [hmore]
  exact ⟨rfl, rfl, hlines⟩

/-! ## The whole run -/

/-- Whatever it is asked for, the command keeps a tree proper. -/
theorem proper_run (h : files.Proper) (arguments : List String) :
    (run arguments files).files.Proper := by
  cases hrequest : Request.ofArguments? arguments with
  | none =>
      rw [run, hrequest]
      exact h
  | some request =>
      cases request with
      | help =>
          rw [run, hrequest]
          exact h
      | version =>
          rw [run, hrequest]
          exact h
      | run i =>
          cases hplan : planOf i files with
          | error failure =>
              rw [files_of_runs hrequest (runs_invocation_error hplan)]
              exact h
          | ok pair =>
              obtain ⟨result, after, lines, hjobs, hafter⟩ :=
                exists_runs_jobs h i pair.1 pair.2 {}
              rw [files_of_runs hrequest (runs_invocation hplan hjobs)]
              exact hafter

/-- A run that only checks leaves the files as they are. -/
theorem files_of_check (hcheck : Request.ofArguments? arguments = some (.run i))
    (h : i.check = true) : (run arguments files).files = files := by
  cases hplan : planOf i files with
  | error failure => exact files_of_runs hcheck (runs_invocation_error hplan)
  | ok pair =>
      exact files_of_runs hcheck (runs_invocation hplan (runs_checks h pair.1 files pair.2 {}))

/-- What belongs to jobs that are not done is spared. -/
theorem spares_of_not_done {results : List (String × Report)} (harranged : Arranged files jobs)
    (h : Written naming files (jobs.take results.length) results after) :
    ∀ job ∈ jobs.drop results.length, ∀ path, path = job.input ∨ job.output = some path →
      files.Spares after (Path.target path) := by
  intro job hjob path hpath
  apply h.others
  intro other hother output houtput
  rcases hpath with rfl | hpath
  · exact harranged.apart job (List.mem_of_mem_drop hjob) other (List.mem_of_mem_take hother)
      output houtput
  · have hpairs := harranged.distinct
    rw [← List.take_append_drop results.length jobs, List.pairwise_append] at hpairs
    exact (hpairs.2.2 other hother job hjob output houtput path hpath).symm

theorem ends_of_jobs {results : List (String × Report)} {stop : Stop} {now : FileTree}
    (hrun : Request.ofArguments? arguments = some (.run i))
    (hplan : planOf i files = .ok (naming, jobs)) (checks : Bool)
    (hstops : Stops naming files jobs results now stop)
    (hjobs : Runs (doJobs i naming jobs {}) files
      ((stop.failure? checks).elim (.ok (reportAfter {} results)) .error) after
      (linesOf i jobs results)) :
    (run arguments files).Ends (linesOf i jobs results) (sums results) (stop.failure? checks) := by
  have hinvocation := runs_invocation hplan hjobs
  cases hstops with
  | done hlength =>
      apply ends_of_runs hrun
      rw [← summary_reportAfter, hlength]
      exact hinvocation
  | failed hjob hresult =>
      apply ends_of_runs_error hrun
      simpa [Stop.failure?, Except.map, Except.toOption] using hinvocation
  | unwritten hjob houtput hresult hunwritten =>
      apply ends_of_runs_error hrun
      simpa [Stop.failure?, Except.map, Except.toOption] using hinvocation

/-- What is known of a run that only checks: it changes nothing, and it looks at all files in turn, up to
the first one of which nothing comes. -/
structure Checked (i : Invocation) (files : FileTree) (o : Outcome) : Prop where
  unchanged : o.files = files
  /-- Without an output nothing but the naming can be missing before the first file is looked at. -/
  planned : i.output = none → planOf i files = (namingOf files i.config).map fun naming =>
    (naming, (inputsOf files i.input).map fun path => ⟨path, none⟩)
  failed : ∀ {failure : Failure}, planOf i files = .error failure → o.Ends [] "" (some failure)
  ends : ∀ {naming : Naming} {jobs : List Job} {results : List (String × Report)} {stop : Stop},
    planOf i files = .ok (naming, jobs) → verdict naming files jobs = (results, stop) →
      jobs.map Job.input = inputsOf files i.input ∧
        o.Ends (linesOf i jobs results) (sums results) (stop.failure? true)

theorem checked_of_check (hcheck : Request.ofArguments? checking = some (.run i))
    (h : i.check = true) : Checked i files (run checking files) where
  unchanged := files_of_check hcheck h
  planned := planOf_of_no_output h
  failed := fun hplan => ends_of_runs_error hcheck (runs_invocation_error hplan)
  ends := by
    intro naming jobs results stop hplan hverdict
    have hstops := stops_verdict naming files files jobs
    have hruns := runs_checks h naming files jobs {}
    rw [hverdict] at hstops hruns
    refine ⟨?_, ends_of_jobs hcheck hplan true hstops hruns⟩
    rw [jobs_of_plan hplan, List.map_map]
    exact List.map_id _

/-- What is known of a run that writes and of one that checks when both have the same jobs. -/
structure CleanPrefix (i : Invocation) (naming : Naming) (files : FileTree) (jobs : List Job)
    (results : List (String × Report)) (stop : Stop) (writing checking : Outcome) : Prop where
  /-- There is a job for each file, with a place for its result. -/
  jobs_eq : jobs = (inputsOf files i.input).map fun path => ⟨path, outputOf i files path⟩
  stops : Stops naming files jobs results writing.files stop
  written : Written naming files (jobs.take results.length) results writing.files
  /-- No file of a job that is not done is created or changed. -/
  spared : ∀ job ∈ jobs.drop results.length, ∀ path, path = job.input ∨ job.output = some path →
    files.Spares writing.files (Path.target path)
  ends : writing.Ends (linesOf i jobs results) (sums results) (stop.failure? false)
  checked : checking.Ends (linesOf i jobs (verdict naming files jobs).1)
    (sums (verdict naming files jobs).1) ((verdict naming files jobs).2.failure? true)
  /-- The checking run finds the same unless the writing run cannot write. -/
  agrees : (∀ path error, stop ≠ .unwritten path error) →
    verdict naming files jobs = (results, stop)

/-- A run that writes does all jobs or a prefix of them. A run that checks changes nothing and looks at
all files up to the first one of which nothing comes, with an output or without one; if there is an output
it ends as the run that writes does. -/
theorem run_writes_all_or_prefix (hrun : Request.ofArguments? arguments = some (.run i))
    (hwrites : i.check = false)
    (hcheck : Request.ofArguments? checking = some (.run { i with check := true }))
    (hproper : files.Proper)
    (hapart : ∀ naming jobs, planOf i files = .ok (naming, jobs) →
      ∀ job ∈ jobs, ∀ other ∈ jobs, ∀ output ∈ other.output,
        Path.target job.input ≠ Path.target output) :
    Checked { i with check := true } files (run checking files) ∧
      match planOf i files with
      | .error failure =>
        (run arguments files).files = files ∧ (run arguments files).Ends [] "" (some failure) ∧
          (i.output.isSome → (run checking files).Ends [] "" (some failure))
      | .ok (naming, jobs) =>
        ∃ (results : List (String × Report)) (stop : Stop),
          CleanPrefix i naming files jobs results stop (run arguments files)
            (run checking files) := by
  have hchecked : Checked { i with check := true } files (run checking files) :=
    checked_of_check hcheck rfl
  refine ⟨hchecked, ?_⟩
  cases hplan : planOf i files with
  | error failure =>
      have hruns := runs_invocation_error hplan
      refine ⟨files_of_runs hrun hruns, ends_of_runs_error hrun hruns, fun houtput => ?_⟩
      rw [← planOf_check i files houtput] at hplan
      exact hchecked.failed hplan
  | ok pair =>
      obtain ⟨naming, jobs⟩ := pair
      have hjobs : jobsOf i files = .ok jobs := by
        obtain ⟨found, -, h⟩ := bind_eq_ok.mp hplan
        obtain ⟨others, hothers, heq⟩ := map_eq_ok.mp h
        cases heq
        exact hothers
      have harranged := arranged_of_plan hproper hwrites hjobs (hapart naming jobs hplan)
      obtain ⟨results, after, stop, hruns, hwritten, hstops, hverdict⟩ :=
        runs_jobs hwrites harranged rfl (written_nil naming files) (fun _ => rfl) {}
      rw [List.nil_append, List.nil_append] at hwritten
      have hfiles := files_of_runs hrun (runs_invocation hplan hruns)
      have hsame := (planOf_check i files (isSome_of_plan hwrites hjobs)).trans hplan
      refine ⟨results, stop, ?_⟩
      constructor
      · exact jobs_of_plan hplan
      · rwa [hfiles]
      · rwa [hfiles]
      · rw [hfiles]
        exact spares_of_not_done harranged hwritten
      · exact ends_of_jobs hrun hplan false hstops hruns
      · exact (hchecked.ends hsame rfl).2
      · exact hverdict

/-! ## Runs on one tree -/

/-- A directory with a source file in it and another one below it. -/
def nested : FileTree :=
  ⟨[(["src"], .directory), (["src", "a.rs"], .text "fn a() \x7b\x7d"),
    (["src", "sub"], .directory), (["src", "sub", "a.rs"], .text "fn b() \x7b\x7d")]⟩

/-- A tree in which a file is where a directory for an output would be. -/
def blocked : FileTree := ⟨[(["out"], .text ""), (["a.rs"], .text "")]⟩

theorem proper_nested : nested.Proper where
  distinct := by decide
  named := by
    have hsrc : Path.IsName "src" := ⟨by decide, by decide, by decide⟩
    have hfile : Path.IsName "a.rs" := ⟨by decide, by decide, by decide⟩
    have hsub : Path.IsName "sub" := ⟨by decide, by decide, by decide⟩
    simp [nested, hsrc, hfile, hsub]
  rooted := by decide

theorem sources_nested : sources nested "src" = ["src/a.rs", "src/sub/a.rs"] := by
  have hway : wayTo nested "src" = some "src" := by decide +kernel
  have hplace : nested.place "src" = .ok ["src"] := by rfl
  have hnames : nested.names ["src"] = ["a.rs", "sub"] :=
    List.mergeSort_of_pairwise (by decide)
  rw [sources_eq, hway, Option.elim]
  change sourcesWithin nested (4 + 1) "src" = _
  rw [sourcesWithin, hplace]
  dsimp only
  rw [hnames]
  decide +kernel

/-- The invocation for the directory. -/
def nestedTo (root : String) : Invocation := { input := "src", output := some root }

theorem plan_nested (root : String) :
    planOf (nestedTo root) nested =
      .ok ({}, [⟨"src/a.rs", some (Path.join root "a.rs")⟩,
        ⟨"src/sub/a.rs", some (Path.join root "sub/a.rs")⟩]) := by
  have hdir : nested.isDirectory "src" = true := by decide +kernel
  have hfirst : Path.relativeTo? "src/a.rs" "src" = some "a.rs" := by decide +kernel
  have hsecond : Path.relativeTo? "src/sub/a.rs" "src" = some "sub/a.rs" := by decide +kernel
  have hjobs : jobsOf (nestedTo root) nested =
      .ok [⟨"src/a.rs", some (Path.join root "a.rs")⟩,
        ⟨"src/sub/a.rs", some (Path.join root "sub/a.rs")⟩] := by
    rw [jobsOf, nestedTo]
    dsimp only
    rw [hdir, sources_nested]
    simp [hfirst, hsecond, pure, Except.pure, bind, Except.bind]
  rw [planOf, hjobs]
  rfl

/-- The directory is enhanced into another one, and checked with an output and without one. -/
theorem nested_written :
    (∃ (results : List (String × Report)) (stop : Stop),
      CleanPrefix (nestedTo "out") {} nested
        [⟨"src/a.rs", some "out/a.rs"⟩, ⟨"src/sub/a.rs", some "out/sub/a.rs"⟩] results stop
        (run ["src", "out"] nested) (run ["src", "out", "--check"] nested)) ∧
      (run ["src", "--check"] nested).files = nested ∧
      (run ["src", "--check"] nested).Ends []
        "2 files: 0 classes enhanced, 0 already enhanced, 0 setters rewritten" none := by
  constructor
  · have hapart : ∀ naming jobs, planOf (nestedTo "out") nested = .ok (naming, jobs) →
        ∀ job ∈ jobs, ∀ other ∈ jobs, ∀ output ∈ other.output,
          Path.target job.input ≠ Path.target output := by
      intro naming jobs hplan
      rw [plan_nested] at hplan
      cases hplan
      decide +kernel
    have hrun : Request.ofArguments? ["src", "out"] = some (.run (nestedTo "out")) := by
      decide +kernel
    have hcheck : Request.ofArguments? ["src", "out", "--check"] =
        some (.run { nestedTo "out" with check := true }) := by decide +kernel
    obtain ⟨-, hwhole⟩ := run_writes_all_or_prefix hrun rfl hcheck proper_nested hapart
    have hfirst : Path.join "out" "a.rs" = "out/a.rs" := by decide +kernel
    have hsecond : Path.join "out" "sub/a.rs" = "out/sub/a.rs" := by decide +kernel
    rw [plan_nested, hfirst, hsecond] at hwhole
    exact hwhole
  · have hrun : Request.ofArguments? ["src"] = some (.run { input := "src" }) := by decide +kernel
    have hcheck : Request.ofArguments? ["src", "--check"] =
        some (.run { input := "src", check := true }) := by decide +kernel
    have hapart : ∀ naming jobs, planOf { input := "src" } nested = .ok (naming, jobs) →
        ∀ job ∈ jobs, ∀ other ∈ jobs, ∀ output ∈ other.output,
          Path.target job.input ≠ Path.target output := by
      intro naming jobs hplan
      obtain ⟨_, -, hjobs⟩ := bind_eq_ok.mp hplan
      obtain ⟨_, hjobs, -⟩ := map_eq_ok.mp hjobs
      exact Bool.noConfusion (isSome_of_plan rfl hjobs)
    obtain ⟨hchecked, -⟩ := run_writes_all_or_prefix hrun rfl hcheck proper_nested hapart
    have hinputs : inputsOf nested "src" = ["src/a.rs", "src/sub/a.rs"] := by
      rw [inputsOf, if_pos (by decide +kernel), sources_nested]
    have hplan : planOf { input := "src", check := true } nested =
        .ok ({}, [⟨"src/a.rs", none⟩, ⟨"src/sub/a.rs", none⟩]) := by
      rw [hchecked.planned rfl, hinputs]
      rfl
    have hfirst : (⟨"src/a.rs", none⟩ : Job).result {} nested = .ok ("fn a () \x7b \x7d", {}) := by
      decide +kernel
    have hsecond : (⟨"src/sub/a.rs", none⟩ : Job).result {} nested = .ok ("fn b () \x7b \x7d", {}) := by
      decide +kernel
    obtain ⟨-, hends⟩ := hchecked.ends hplan (by rw [verdict, verdict, verdict, hfirst, hsecond])
    exact ⟨hchecked.unchanged, hends⟩

theorem run_of_jobs {job : Job} {rest : List Job}
    (hrun : Request.ofArguments? arguments = some (.run i)) (hconfig : i.config = none)
    (hjobs : jobsOf i files = .ok (job :: rest)) :
    (run arguments files).files = ((doJobs i {} (job :: rest) {}).run ⟨files, []⟩).2.files := by
  have hrest : i.run.run ⟨files, []⟩ = (doJobs i {} (job :: rest) {} >>= fun report =>
      print (.line (summary (job :: rest).length report))).run ⟨files, []⟩ := by
    rw [Invocation.run, hconfig]
    change ((liftM (jobsOf i files) : Step (List Job)) >>= _ : Step Unit).run ⟨files, []⟩ = _
    rw [hjobs]
    rfl
  rw [run, hrun]
  dsimp only
  rw [hrest, run_bind]
  rcases (doJobs i {} (job :: rest) {}).run ⟨files, []⟩ with ⟨_ | report, next⟩ <;> rfl

/-- A check does not see that an output cannot be written, tells otherwise that an input cannot be read,
and where an output is an input under another name, its job is not done with the original. -/
theorem check_misses_unwritten :
    ((run ["a.rs", "out/a.rs"] blocked).code = 1 ∧
      (run ["a.rs", "out/a.rs", "--check"] blocked).code = 0) ∧
    ((run ["b.rs", "out/b.rs"] blocked).errors.head? =
        some "Error: I/O error on b.rs: No such file or directory (os error 2)" ∧
      (run ["b.rs", "out/b.rs", "--check"] blocked).errors.head? =
        some "Error: Failed to read b.rs") ∧
    ((run ["src", "./src/sub"] nested).files.read "./src/sub/sub/a.rs" = .ok "fn a () \x7b \x7d" ∧
      ((⟨"src/sub/a.rs", some "./src/sub/sub/a.rs"⟩ : Job).result {} nested).toOption.map Prod.fst =
        some "fn b () \x7b \x7d") := by
  refine ⟨by decide +kernel, by decide +kernel, ?_, by decide +kernel⟩
  have hrun : Request.ofArguments? ["src", "./src/sub"] = some (.run (nestedTo "./src/sub")) := by
    decide +kernel
  obtain ⟨_, -, hjobs⟩ := bind_eq_ok.mp (plan_nested "./src/sub")
  obtain ⟨jobs, hjobs, heq⟩ := map_eq_ok.mp hjobs
  cases heq
  rw [run_of_jobs hrun rfl hjobs]
  decide +kernel

end Command

end Chronicle
