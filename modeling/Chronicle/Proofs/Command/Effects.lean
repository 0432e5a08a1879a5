import Chronicle.Command.Run

/-!
# Steps of a run

What a step of a run answers, what it leaves of the tree of files, and what it prints: one lemma for each
step, and one for each way in which two steps follow one another.

## Implementation notes

The log is left out of what is told, since a run that writes and one that only checks log different
things.
-/

namespace Chronicle

namespace Command

open Enhance

variable {α β : Type} {files mid after : FileTree} {path : String}

/-- The printed lines of some output, without the log. -/
def printedLines (output : List Printed) : List String :=
  output.filterMap fun
    | .line text => some text
    | .log _ => none

theorem printedLines_append (first second : List Printed) :
    printedLines (first ++ second) = printedLines first ++ printedLines second :=
  List.filterMap_append

/-- Whether a step that starts with a tree of files comes to a result, leaves a tree and prints some
lines. -/
def Runs (m : Step α) (files : FileTree) (result : Except Failure α) (after : FileTree)
    (lines : List String) : Prop :=
  ∀ output, ∃ more, m.run ⟨files, output⟩ = (result, ⟨after, output ++ more⟩) ∧
    printedLines more = lines

/-! ## One after another -/

theorem runs_pure (a : α) : Runs (pure a) files (.ok a) files [] :=
  fun output => ⟨[], by rw [List.append_nil]; rfl, rfl⟩

theorem runs_throw (failure : Failure) :
    Runs (throw failure : Step α) files (.error failure) files [] :=
  fun output => ⟨[], by rw [List.append_nil]; rfl, rfl⟩

theorem run_bind (x : Step α) (f : α → Step β) (p : Progress) :
    (x >>= f).run p =
      match x.run p with
      | (.ok a, next) => (f a).run next
      | (.error failure, next) => (.error failure, next) := by
  change (match x.run p with | (r, next) => ExceptT.bindCont f r next) = _
  rcases x.run p with ⟨_ | _, _⟩ <;> rfl

/-- A step starts where the one before it ended. -/
theorem Runs.bind {x : Step α} {f : α → Step β} {a : α} {result : Except Failure β}
    {first second : List String} (hx : Runs x files (.ok a) mid first)
    (hf : Runs (f a) mid result after second) :
    Runs (x >>= f) files result after (first ++ second) := by
  intro output
  obtain ⟨more, hmore, hfirst⟩ := hx output
  obtain ⟨others, hothers, hsecond⟩ := hf (output ++ more)
  refine ⟨more ++ others, ?_, ?_⟩
  · rw [run_bind, hmore, ← List.append_assoc]
    exact hothers
  · rw [printedLines_append, hfirst, hsecond]

/-- After a step that prints nothing only what follows is printed. -/
theorem Runs.bind_nil {x : Step α} {f : α → Step β} {a : α} {result : Except Failure β}
    {lines : List String} (hx : Runs x files (.ok a) mid [])
    (hf : Runs (f a) mid result after lines) : Runs (x >>= f) files result after lines :=
  hx.bind hf

/-- Nothing follows a step that fails. -/
theorem Runs.bind_error {x : Step α} {f : α → Step β} {failure : Failure} {lines : List String}
    (hx : Runs x files (.error failure) after lines) :
    Runs (x >>= f) files (.error failure) after lines := by
  intro output
  obtain ⟨more, hmore, hlines⟩ := hx output
  refine ⟨more, ?_, hlines⟩
  rw [run_bind, hmore]

/-! ## Single steps -/

theorem runs_line (files : FileTree) (text : String) : Runs (print (.line text)) files (.ok ()) files [text] :=
  fun _ => ⟨[.line text], rfl, rfl⟩

theorem runs_log (files : FileTree) (level : LogLevel) (target text : String) :
    Runs (log level target text) files (.ok ()) files [] :=
  fun _ => ⟨[.log ⟨level, target, text⟩], rfl, rfl⟩

theorem runs_get {f : Progress → Step α} {result : Except Failure α} {lines : List String}
    (h : ∀ output, Runs (f ⟨files, output⟩) files result after lines) :
    Runs (get >>= f) files result after lines := by
  intro output
  obtain ⟨more, hmore, hlines⟩ := h output output
  refine ⟨more, ?_, hlines⟩
  rw [run_bind]
  exact hmore

theorem runs_liftM (files : FileTree) (result : Except Failure α) :
    Runs (liftM result) files result files [] := by
  cases result with
  | ok a => exact runs_pure a
  | error failure => exact runs_throw failure

theorem runs_readFile (files : FileTree) (path : String) (failure : FileError → Failure) :
    Runs (readFile path failure) files ((files.read path).mapError failure) files [] := by
  rw [readFile]
  refine runs_get fun output => ?_
  dsimp only
  cases files.read path with
  | ok content => exact runs_pure content
  | error error => exact runs_throw (failure error)

/-- How a run fails when it cannot read or write. -/
def accessFailure (path : String) (error : FileError) : Failure :=
  ⟨"I/O error on " ++ path ++ ": " ++ error.message, error.message⟩

theorem runs_change {edit : FileTree → Except FileError FileTree} (h : edit files = .ok after) :
    Runs (change path edit) files (.ok ()) after [] := by
  rw [change]
  refine runs_get fun output => ?_
  dsimp only
  rw [h]
  exact fun output => ⟨[], by rw [List.append_nil]; rfl, rfl⟩

theorem runs_change_error {edit : FileTree → Except FileError FileTree} {error : FileError}
    (h : edit files = .error error) :
    Runs (change path edit) files (.error (accessFailure path error)) files [] := by
  rw [change]
  refine runs_get fun output => ?_
  dsimp only
  rw [h]
  exact runs_throw _

theorem runs_notes (files : FileTree) (notes : List Note) :
    Runs (notes.forM logNote) files (.ok ()) files [] := by
  induction notes with
  | nil => exact runs_pure ()
  | cons note notes ih =>
      have hnote : Runs (logNote note) files (.ok ()) files [] := by
        cases note <;> exact runs_log files _ _ _
      exact hnote.bind_nil ih

theorem runs_lines (files : FileTree) (lines : List String) :
    Runs (lines.forM fun line => print (.line line)) files (.ok ()) files lines := by
  induction lines with
  | nil => exact runs_pure ()
  | cons line lines ih => exact (runs_line files line).bind ih

theorem runs_enhance (files : FileTree) (naming : Naming) (path source : String) :
    Runs (enhance naming path source) files
      ((enhanceText naming source path).result.mapError fun error => ⟨error.message, none⟩)
      files [] := by
  rw [enhance]
  refine (runs_notes files _).bind_nil ?_
  cases (enhanceText naming source path).result with
  | ok done => exact runs_pure done
  | error error => exact runs_throw _

end Command

end Chronicle
