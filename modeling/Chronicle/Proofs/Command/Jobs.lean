import Chronicle.Proofs.Command.Effects
import Chronicle.Proofs.Enhance.Scopes
import Chronicle.Proofs.Files.Proper

/-!
# Jobs, one after another

What comes of the jobs of a run depends on the files before the run only: what a job writes is not read
by any job after it. So a run that writes does its jobs up to the first one that fails, and a run that only
checks finds the same reports up to the same job.

## Implementation notes

A job that fails because its output cannot be written has read and enhanced its input. A run that only
checks does not come to know of such a failure.
-/

namespace Chronicle

namespace Command

open Enhance

variable {α : Type} {files now made next after : FileTree} {naming : Naming} {i : Invocation}
  {job : Job} {jobs done rest : List Job} {results : List (String × Report)}
  {path output text : String} {report : Report} {error : FileError}

/-! ## What comes of a job -/

/-- How a run fails when it cannot read the input of a job, which depends on whether it only checks. -/
def readFailure (checks : Bool) (path : String) (error : FileError) : Failure :=
  match checks with
  | true => ⟨"Failed to read " ++ path, error.message⟩
  | false => accessFailure path error

/-- Why nothing comes of a job. -/
inductive JobError where
  | unreadable (error : FileError)
  | faulty (error : EnhanceError)
deriving DecidableEq

/-- How a run fails at a job. -/
def JobError.failure (checks : Bool) (path : String) : JobError → Failure
  | .unreadable error => readFailure checks path error
  | .faulty error => ⟨error.message, none⟩

/-- The text and the report that come of a job. -/
def Job.result (job : Job) (naming : Naming) (files : FileTree) :
    Except JobError (String × Report) :=
  match files.read job.input with
  | .error error => .error (.unreadable error)
  | .ok source => (enhanceText naming source job.input).result.mapError .faulty

theorem runs_found (checks : Bool) (job : Job) (naming : Naming) (files : FileTree) :
    Runs (readFile job.input (readFailure checks job.input) >>= enhance naming job.input) files
      ((job.result naming files).mapError (JobError.failure checks job.input)) files [] := by
  have hread := runs_readFile files job.input (readFailure checks job.input)
  rw [Job.result]
  cases hsource : files.read job.input with
  | error error =>
      rw [hsource] at hread
      exact hread.bind_error
  | ok source =>
      rw [hsource] at hread
      have henhance := runs_enhance files naming job.input source
      dsimp only
      cases hresult : (enhanceText naming source job.input).result with
      | error error =>
          rw [hresult] at henhance
          exact hread.bind_nil henhance
      | ok pair =>
          rw [hresult] at henhance
          exact hread.bind_nil henhance

/-- What is done with what comes of a job is done after the input is read and enhanced. -/
theorem runs_result (checks : Bool) {f : String × Report → Step α} {result : Except Failure α}
    {lines : List String} {pair : String × Report} (h : job.result naming files = .ok pair)
    (hf : Runs (f pair) files result after lines) :
    Runs (readFile job.input (readFailure checks job.input) >>= fun source =>
      enhance naming job.input source >>= f) files result after lines := by
  have hfound := runs_found checks job naming files
  rw [h] at hfound
  rw [← bind_assoc]
  exact hfound.bind_nil hf

theorem runs_result_error (checks : Bool) {f : String × Report → Step α} {error : JobError}
    (h : job.result naming files = .error error) :
    Runs (readFile job.input (readFailure checks job.input) >>= fun source =>
      enhance naming job.input source >>= f) files (.error (error.failure checks job.input))
      files [] := by
  have hfound := runs_found checks job naming files
  rw [h] at hfound
  rw [← bind_assoc]
  exact hfound.bind_error

/-- The tree with directories for the file at the end of a path; the error is told with the path of the
directory. -/
def prepared (t : FileTree) (path : String) : Except (String × FileError) FileTree :=
  match Path.parent? path with
  | none => .ok t
  | some dir => (t.makeDirectories dir).mapError (dir, ·)

theorem grows_prepared (h : prepared now path = .ok made) : now.Grows made := by
  rw [prepared] at h
  split at h
  · cases h
    exact FileTree.Grows.refl now
  · exact FileTree.grows_makeDirectories (mapError_eq_ok.mp h)

theorem runs_prepared {m : Step α} {result : Except Failure α} {lines : List String}
    (hmade : prepared now path = .ok made) (h : Runs m made result after lines) :
    Runs (do
      if let some dir := Path.parent? path then
        change dir (·.makeDirectories dir)
      m) now result after lines := by
  rw [prepared] at hmade
  split at hmade
  · rename_i hparent
    cases hmade
    rw [hparent]
    exact h
  · rename_i dir hparent
    rw [hparent]
    exact (runs_change (mapError_eq_ok.mp hmade)).bind_nil h

theorem runs_unprepared {m : Step α} {dir : String} (h : prepared now path = .error (dir, error)) :
    Runs (do
      if let some dir := Path.parent? path then
        change dir (·.makeDirectories dir)
      m) now (.error (accessFailure dir error)) now [] := by
  rw [prepared] at h
  split at h
  · cases h
  · rename_i above hparent
    rw [hparent]
    cases habove : now.makeDirectories above with
    | error cause =>
        rw [habove] at h
        cases h
        exact (runs_change_error habove).bind_error
    | ok made =>
        rw [habove] at h
        cases h

/-- Whether the text of a job cannot be put into its output, and why. -/
inductive Unwritten (now : FileTree) (output text : String) : String → FileError → FileTree → Prop
  | directory {dir : String} {cause : FileError} (h : prepared now output = .error (dir, cause)) :
      Unwritten now output text dir cause now
  | file {made : FileTree} {cause : FileError} (hmade : prepared now output = .ok made)
      (h : made.write output text = .error cause) : Unwritten now output text output cause made

theorem Unwritten.grows (h : Unwritten now output text path error made) : now.Grows made := by
  cases h with
  | directory => exact FileTree.Grows.refl now
  | file hmade => exact grows_prepared hmade

theorem written_or_unwritten (now : FileTree) (output text : String) :
    (∃ made next, prepared now output = .ok made ∧ made.write output text = .ok next) ∨
      ∃ path error made, Unwritten now output text path error made := by
  cases hprepared : prepared now output with
  | error pair => exact Or.inr ⟨pair.1, pair.2, now, .directory hprepared⟩
  | ok made =>
      cases hwrite : made.write output text with
      | error error => exact Or.inr ⟨output, error, made, .file hprepared hwrite⟩
      | ok next => exact Or.inl ⟨made, next, rfl, hwrite⟩

/-- The lines that are printed when a job is done. -/
def Job.lines (i : Invocation) (job : Job) (report : Report) : List String :=
  if i.verbose then reportLines job.input report else []

/-- A step that reports on a job, and the lines that are printed for the report. -/
def reported (i : Invocation) (job : Job) (m : Step Report) : Step Report := do
  let report ← m
  if i.verbose then
    (reportLines job.input report).forM fun line => print (.line line)
  return report

theorem runs_reported {m : Step Report} (h : Runs m now (.ok report) after []) :
    Runs (reported i job m) now (.ok report) after (job.lines i report) := by
  refine h.bind_nil ?_
  rw [Job.lines]
  cases i.verbose with
  | false => exact runs_pure report
  | true =>
      have hlines := (runs_lines after (reportLines job.input report)).bind
        (f := fun _ => pure report) (runs_pure report)
      rwa [List.append_nil] at hlines

/-! ### Jobs of a run that checks -/

theorem run_of_check (h : i.check = true ∨ job.output = none) :
    job.run i naming = reported i job (checkFile naming job.input) := by
  rw [Job.run]
  split
  · rename_i output hcheck houtput
    simp [hcheck, houtput] at h
  · rfl

theorem runs_check (hcheck : i.check = true ∨ job.output = none)
    (h : job.result naming files = .ok (text, report)) :
    Runs (job.run i naming) files (.ok report) files (job.lines i report) := by
  rw [run_of_check hcheck]
  exact runs_reported (runs_result true h (runs_pure report))

theorem runs_check_error {error : JobError} (hcheck : i.check = true ∨ job.output = none)
    (h : job.result naming files = .error error) :
    Runs (job.run i naming) files (.error (error.failure true job.input)) files [] := by
  rw [run_of_check hcheck]
  exact (runs_result_error true h).bind_error

/-! ### Jobs of a run that writes -/

theorem run_of_write (h : i.check = false) (houtput : job.output = some output) :
    job.run i naming = reported i job (enhanceFile naming job.input output) := by
  rw [Job.run, h, houtput]
  rfl

theorem runs_write (hcheck : i.check = false) (houtput : job.output = some output)
    (h : job.result naming now = .ok (text, report)) (hmade : prepared now output = .ok made)
    (hwrite : made.write output text = .ok next) :
    Runs (job.run i naming) now (.ok report) next (job.lines i report) := by
  rw [run_of_write hcheck houtput]
  refine runs_reported (runs_result false h (runs_prepared hmade ?_))
  exact (runs_change hwrite).bind_nil
    (f := fun _ => log .info "entity_enhancer::enhancer" _ >>= fun _ => pure report)
    ((runs_log next .info "entity_enhancer::enhancer" _).bind_nil (f := fun _ => pure report)
      (runs_pure report))

theorem runs_write_error {error : JobError} (hcheck : i.check = false)
    (houtput : job.output = some output) (h : job.result naming now = .error error) :
    Runs (job.run i naming) now (.error (error.failure false job.input)) now [] := by
  rw [run_of_write hcheck houtput]
  exact (runs_result_error false h).bind_error

theorem runs_unwritten (hcheck : i.check = false) (houtput : job.output = some output)
    (h : job.result naming now = .ok (text, report))
    (hunwritten : Unwritten now output text path error made) :
    Runs (job.run i naming) now (.error (accessFailure path error)) made [] := by
  rw [run_of_write hcheck houtput]
  refine (runs_result false h ?_).bind_error
  cases hunwritten with
  | directory hprepared => exact runs_unprepared hprepared
  | file hmade hwrite => exact runs_prepared hmade (runs_change_error hwrite).bind_error

/-! ### Proper trees -/

theorem proper_prepared (hproper : now.Proper) (h : prepared now path = .ok made) :
    made.Proper := by
  rw [prepared] at h
  split at h
  · cases h
    exact hproper
  · exact hproper.makeDirectories (mapError_eq_ok.mp h)

theorem Unwritten.proper (hproper : now.Proper)
    (h : Unwritten now output text path error made) : made.Proper := by
  cases h with
  | directory => exact hproper
  | file hmade => exact proper_prepared hproper hmade

/-- A job keeps a tree proper, whatever comes of it. -/
theorem exists_runs_job (hproper : now.Proper) (i : Invocation) (naming : Naming) (job : Job) :
    ∃ (result : Except Failure Report) (after : FileTree) (lines : List String),
      Runs (job.run i naming) now result after lines ∧ after.Proper := by
  by_cases hcheck : i.check = true ∨ job.output = none
  · cases hresult : job.result naming now with
    | error error => exact ⟨_, now, [], runs_check_error hcheck hresult, hproper⟩
    | ok pair => exact ⟨_, now, _, runs_check hcheck hresult, hproper⟩
  · rw [not_or, Bool.not_eq_true, ← Ne, Option.ne_none_iff_exists'] at hcheck
    obtain ⟨hwrites, output, houtput⟩ := hcheck
    cases hresult : job.result naming now with
    | error error => exact ⟨_, now, [], runs_write_error hwrites houtput hresult, hproper⟩
    | ok pair =>
        rcases written_or_unwritten now output pair.1 with
          ⟨made, next, hprepared, hwrite⟩ | ⟨path, error, made, hunwritten⟩
        · exact ⟨_, next, _, runs_write hwrites houtput hresult hprepared hwrite,
            (proper_prepared hproper hprepared).write hwrite⟩
        · exact ⟨_, made, [], runs_unwritten hwrites houtput hresult hunwritten,
            hunwritten.proper hproper⟩

/-! ## What is written -/

/-- What is known of the files after some jobs are done: the outputs hold the results, and nothing else
happened but that directories were made. -/
structure Written (naming : Naming) (files : FileTree) (done : List Job)
    (results : List (String × Report)) (now : FileTree) : Prop where
  outputs : List.Forall₂ (fun job result => job.result naming files = .ok result ∧
    ∃ output, job.output = some output ∧ now.read output = .ok result.1) done results
  others : ∀ place, (∀ job ∈ done, ∀ output ∈ job.output, place ≠ Path.target output) →
    files.Spares now place
  directories : files.KeepsDirectories now

theorem written_nil (naming : Naming) (files : FileTree) : Written naming files [] [] files where
  outputs := .nil
  others := fun _ _ => Or.inl rfl
  directories := fun _ h => h

theorem Written.grows (h : Written naming files done results now) (hgrows : now.Grows made) :
    Written naming files done results made where
  outputs := by
    refine h.outputs.imp ?_
    rintro job result ⟨hresult, output, houtput, hread⟩
    have hplace := (hgrows (Path.target output)).get? (FileTree.get?_of_read hread)
    exact ⟨hresult, output, houtput, hgrows.keepsDirectories.read hplace hread⟩
  others := fun place hplace => (h.others place hplace).trans (hgrows place)
  directories := fun place hplace => hgrows.keepsDirectories place (h.directories place hplace)

/-- The output of one more job is written where no job before it has put anything. -/
theorem Written.write (h : Written naming files done results now)
    (hdistinct : ∀ other ∈ done, ∀ first ∈ other.output, Path.target first ≠ Path.target output)
    (houtput : job.output = some output) (hresult : job.result naming files = .ok (text, report))
    (hwrite : now.write output text = .ok next) :
    Written naming files (done ++ [job]) (results ++ [(text, report)]) next := by
  have hread := FileTree.read_of_write hwrite
  obtain ⟨-, hdirectory, rfl⟩ := FileTree.write_eq_ok hwrite
  have hkeeps := FileTree.keepsDirectories_put hdirectory (.text text)
  constructor
  · refine List.rel_append ?_ (.cons ⟨hresult, output, houtput, hread⟩ .nil)
    have hdone : List.Forall₂ (fun job result => job ∈ done ∧ job.result naming files = .ok result ∧
        ∃ output, job.output = some output ∧ now.read output = .ok result.1) done results :=
      (List.forall₂_and_left done results).mpr ⟨fun _ hmem => hmem, h.outputs⟩
    refine hdone.imp ?_
    rintro other result ⟨hother, hresult, first, hfirst, hread⟩
    refine ⟨hresult, first, hfirst, hkeeps.read ?_ hread⟩
    exact FileTree.get?_put_of_ne now _ _ _ (hdistinct other hother first hfirst)
  · intro place hplace
    have hne : place ≠ Path.target output :=
      hplace job (List.mem_append_right done List.mem_cons_self) output houtput
    rw [FileTree.Spares, FileTree.get?_put_of_ne now _ _ _ hne]
    exact h.others place fun other hother =>
      hplace other (List.mem_append_left [job] hother)
  · exact fun place hplace => hkeeps place (h.directories place hplace)

/-- What comes of a job is not changed by the jobs before it if they do not write its input. -/
theorem Written.result_eq (h : Written naming files done results now)
    (hthere : files.contains job.input = true)
    (hapart : ∀ other ∈ done, ∀ output ∈ other.output, Path.target job.input ≠ Path.target output) :
    job.result naming now = job.result naming files := by
  rw [FileTree.contains] at hthere
  cases hlook : files.look job.input with
  | error cause =>
      rw [hlook] at hthere
      cases hthere
  | ok entry =>
      have hentry := (FileTree.look_eq_ok.mp hlook).2
      have hplace := (h.others _ hapart).get? (by simp [hentry])
      have hread := FileTree.read_of_look hlook (h.directories.look hplace hlook)
      rw [Job.result, Job.result, hread]

/-! ## The jobs of a run -/

/-- What is known of the jobs of a run that writes before it is begun. -/
structure Arranged (files : FileTree) (jobs : List Job) : Prop where
  stored : ∀ job ∈ jobs, ∃ output, job.output = some output
  there : ∀ job ∈ jobs.tail, files.contains job.input = true
  distinct : jobs.Pairwise fun job other => ∀ first ∈ job.output, ∀ second ∈ other.output,
    Path.target first ≠ Path.target second
  apart : ∀ job ∈ jobs, ∀ other ∈ jobs, ∀ output ∈ other.output,
    Path.target job.input ≠ Path.target output

theorem Arranged.result_eq (h : Arranged files jobs) (hjobs : jobs = done ++ job :: rest)
    (hwritten : Written naming files done results now) (hstart : done = [] → now = files) :
    job.result naming now = job.result naming files := by
  cases done with
  | nil => rw [hstart rfl]
  | cons first others =>
      have hmem : job ∈ jobs := by simp [hjobs]
      apply hwritten.result_eq
      · exact h.there job (by simp [hjobs])
      · intro other hother
        exact h.apart job hmem other (by rw [hjobs]; exact List.mem_append_left _ hother)

theorem Arranged.distinct_done (h : Arranged files jobs) (hjobs : jobs = done ++ job :: rest)
    (houtput : job.output = some output) :
    ∀ other ∈ done, ∀ first ∈ other.output, Path.target first ≠ Path.target output := by
  have hpairs := h.distinct
  rw [hjobs, List.pairwise_append] at hpairs
  intro other hother first hfirst
  exact hpairs.2.2 other hother job List.mem_cons_self first hfirst output houtput

/-- Where a run stops. -/
inductive Stop where
  /-- All jobs are done. -/
  | done
  | failed (job : Job) (error : JobError)
  | unwritten (path : String) (error : FileError)

/-- How a run fails where it stops. -/
def Stop.failure? (checks : Bool) : Stop → Option Failure
  | .done => none
  | .failed job error => some (error.failure checks job.input)
  | .unwritten path error => some (accessFailure path error)

/-- Whether a run that writes stops after the jobs of which some results have come, with some files. -/
inductive Stops (naming : Naming) (files : FileTree) (jobs : List Job)
    (results : List (String × Report)) (now : FileTree) : Stop → Prop
  | done (h : results.length = jobs.length) : Stops naming files jobs results now .done
  | failed {job : Job} {error : JobError} (hjob : jobs[results.length]? = some job)
      (h : job.result naming files = .error error) :
      Stops naming files jobs results now (.failed job error)
  | unwritten {job : Job} {output text path : String} {report : Report} {error : FileError}
      {before : FileTree} (hjob : jobs[results.length]? = some job)
      (houtput : job.output = some output) (h : job.result naming files = .ok (text, report))
      (hunwritten : Unwritten before output text path error now) :
      Stops naming files jobs results now (.unwritten path error)

theorem Stops.cons {result : String × Report} {stop : Stop}
    (h : Stops naming files rest results now stop) :
    Stops naming files (job :: rest) (result :: results) now stop := by
  cases h with
  | done h => exact .done (by simp [h])
  | failed hjob h => exact .failed (by simpa using hjob) h
  | unwritten hjob houtput h hunwritten =>
      exact .unwritten (by simpa using hjob) houtput h hunwritten

/-- What comes of the jobs of a run, up to the first one of which nothing comes. -/
def verdict (naming : Naming) (files : FileTree) : List Job → List (String × Report) × Stop
  | [] => ([], .done)
  | job :: rest =>
    match job.result naming files with
    | .error error => ([], .failed job error)
    | .ok result => (result :: (verdict naming files rest).1, (verdict naming files rest).2)

theorem stops_verdict (naming : Naming) (files now : FileTree) (jobs : List Job) :
    Stops naming files jobs (verdict naming files jobs).1 now (verdict naming files jobs).2 := by
  induction jobs with
  | nil => exact .done rfl
  | cons job rest ih =>
      rw [verdict]
      cases hcase : job.result naming files with
      | error error => exact .failed rfl hcase
      | ok result => exact ih.cons

/-- The jobs of a run, done one after another. -/
def doJobs (i : Invocation) (naming : Naming) (jobs : List Job) (report : Report) : Step Report :=
  jobs.foldlM (fun report job => return report.append (← job.run i naming)) report

theorem doJobs_cons (report : Report) :
    doJobs i naming (job :: rest) report =
      job.run i naming >>= fun own => doJobs i naming rest (report.append own) := by
  rw [doJobs, List.foldlM_cons, bind_assoc]
  simp only [pure_bind]
  rfl

/-- The lines that are printed for some jobs with their results. -/
def linesOf (i : Invocation) (jobs : List Job) (results : List (String × Report)) : List String :=
  (List.zipWith (fun job result => job.lines i result.2) jobs results).flatten

/-- A report with the reports of some results after it. -/
def reportAfter (report : Report) (results : List (String × Report)) : Report :=
  report.append (Report.concat (results.map Prod.snd))

theorem reportAfter_nil (report : Report) : reportAfter report [] = report :=
  report.append_empty

theorem reportAfter_cons (report : Report) (result : String × Report) :
    reportAfter report (result :: results) = reportAfter (report.append result.2) results := by
  rw [reportAfter, reportAfter, Report.append_assoc]
  rfl

/-- A run that writes does its jobs up to one at which it stops. -/
theorem runs_jobs (hcheck : i.check = false) (harranged : Arranged files jobs)
    (hjobs : jobs = done ++ rest) (hwritten : Written naming files done results now)
    (hstart : done = [] → now = files) (report : Report) :
    ∃ (more : List (String × Report)) (after : FileTree) (stop : Stop),
      Runs (doJobs i naming rest report) now
        ((stop.failure? false).elim (.ok (reportAfter report more)) .error) after
        (linesOf i rest more) ∧
      Written naming files (done ++ rest.take more.length) (results ++ more) after ∧
      Stops naming files rest more after stop ∧
      ((∀ path error, stop ≠ .unwritten path error) → verdict naming files rest = (more, stop)) := by
  -- the jobs before the present one are written, so that its input is read as it was before the run
  induction rest generalizing done results now report with
  | nil =>
      refine ⟨[], now, .done, ?_, by simpa using hwritten, .done rfl, fun _ => rfl⟩
      rw [reportAfter_nil]
      exact runs_pure report
  | cons job rest ih =>
      obtain ⟨output, houtput⟩ := harranged.stored job (by simp [hjobs])
      have hresult := harranged.result_eq hjobs hwritten hstart
      rw [doJobs_cons]
      cases hcase : job.result naming files with
      | error error =>
          refine ⟨[], now, .failed job error, ?_, by simpa using hwritten, .failed rfl hcase,
            fun _ => by rw [verdict, hcase]⟩
          exact (runs_write_error hcheck houtput (hresult.trans hcase)).bind_error
      | ok pair =>
          obtain ⟨text, own⟩ := pair
          have hnow := hresult.trans hcase
          rcases written_or_unwritten now output text with
            ⟨made, next, hprepared, hwrite⟩ | ⟨path, error, made, hunwritten⟩
          · have hnext := (hwritten.grows (grows_prepared hprepared)).write
              (harranged.distinct_done hjobs houtput) houtput hcase hwrite
            obtain ⟨more, after, stop, hruns, hafter, hstops, hverdict⟩ :=
              ih (by simp [hjobs]) hnext (by simp) (report.append own)
            refine ⟨(text, own) :: more, after, stop, ?_, by simpa using hafter, hstops.cons,
              fun h => by rw [verdict, hcase, hverdict h]⟩
            rw [reportAfter_cons]
            exact (runs_write hcheck houtput hnow hprepared hwrite).bind hruns
          · refine ⟨[], made, .unwritten path error, ?_, ?_,
              .unwritten rfl houtput hcase hunwritten, fun h => absurd rfl (h path error)⟩
            · exact (runs_unwritten hcheck houtput hnow hunwritten).bind_error
            · simpa using hwritten.grows hunwritten.grows

/-- Jobs keep a tree proper, whatever comes of them. -/
theorem exists_runs_jobs (hproper : now.Proper) (i : Invocation) (naming : Naming)
    (jobs : List Job) (report : Report) :
    ∃ (result : Except Failure Report) (after : FileTree) (lines : List String),
      Runs (doJobs i naming jobs report) now result after lines ∧ after.Proper := by
  induction jobs generalizing now report with
  | nil => exact ⟨_, now, [], runs_pure report, hproper⟩
  | cons job rest ih =>
      rw [doJobs_cons]
      obtain ⟨result, next, lines, hjob, hnext⟩ := exists_runs_job hproper i naming job
      cases result with
      | error failure => exact ⟨_, next, lines, hjob.bind_error, hnext⟩
      | ok own =>
          obtain ⟨result, after, others, hrest, hafter⟩ := ih hnext (report.append own)
          exact ⟨result, after, lines ++ others, hjob.bind hrest, hafter⟩

/-- A run that checks leaves the files as they are and goes on up to the first job of which nothing
comes. -/
theorem runs_checks (hcheck : i.check = true) (naming : Naming) (files : FileTree)
    (jobs : List Job) (report : Report) :
    Runs (doJobs i naming jobs report) files
      (((verdict naming files jobs).2.failure? true).elim
        (.ok (reportAfter report (verdict naming files jobs).1)) .error) files
      (linesOf i jobs (verdict naming files jobs).1) := by
  induction jobs generalizing report with
  | nil =>
      rw [verdict, reportAfter_nil]
      exact runs_pure report
  | cons job rest ih =>
      rw [doJobs_cons, verdict]
      cases hcase : job.result naming files with
      | error error => exact (runs_check_error (.inl hcheck) hcase).bind_error
      | ok result =>
          dsimp only
          rw [reportAfter_cons]
          exact (runs_check (.inl hcheck) hcase).bind (ih (report.append result.2))

end Command

end Chronicle
