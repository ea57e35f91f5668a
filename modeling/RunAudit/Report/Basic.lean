import RunAudit.Report.Finding

/-!
# Reports

The report of a check has its messages by severity, each list in the order they were found. It is
valid if the check ran to its end and found no error. The report of an experiment has the reports
of all checks that ran and the failures of those that could not.

* `Report.extend`: a report with more findings.
* `Report.ofAudit`: the report of a whole check.
* `ExperimentReport.verdict`: what the experiment comes to.
* `ExperimentReport.render`: the whole report as plain text.
* `errors_extend`: an extension keeps what was there.
-/

namespace RunAudit

/-- The messages of one check. -/
structure Report where
  validator : String
  infos : List String := []
  warnings : List String := []
  errors : List String := []
  /-- Whether the check ran to its end. -/
  validated : Bool := false
  deriving DecidableEq

namespace Report

/-- Whether the check ran to its end and found no error. -/
def isValid (r : Report) : Bool := r.validated && r.errors.isEmpty

/-- A report with the messages of more findings. -/
def extend (r : Report) (findings : List Finding) : Report :=
  { r with
    infos := r.infos ++ findings.filterMap Finding.info?
    warnings := r.warnings ++ findings.filterMap Finding.warning?
    errors := r.errors ++ findings.filterMap Finding.error? }

/-- The report of a check that has run to its end, or why it could not. -/
def ofAudit {σ : Type} (validator : String) (a : Audit σ Unit) : Except Failure Report :=
  a.result.map fun _ => { extend { validator } a.findings with validated := true }

@[simp] theorem errors_extend (r : Report) (findings : List Finding) :
    (r.extend findings).errors = r.errors ++ findings.filterMap Finding.error? := rfl

/-- The text of a report: its heading and its messages, errors first. -/
def render (r : Report) : String :=
  "\n== " ++ r.validator ++ ": " ++ (if r.isValid then "valid" else "invalid") ++ " ==\n"
    ++ String.join (r.errors.map fun m => "ERROR: " ++ m ++ "\n")
    ++ String.join (r.warnings.map fun m => "WARNING: " ++ m ++ "\n")
    ++ String.join (r.infos.map fun m => "INFO: " ++ m ++ "\n")

end Report

/-- What an experiment comes to. -/
inductive Verdict where
  | passed
  | passedWithWarnings
  | failed
  deriving DecidableEq, Repr

/-- A verdict as reports write it. -/
def Verdict.render : Verdict → String
  | passed => "PASSED"
  | passedWithWarnings => "PASSED WITH WARNINGS"
  | failed => "FAILED"

/-- The outcome of all checks of an experiment. -/
structure ExperimentReport where
  reports : List Report := []
  /-- The checks that could not run, and why. -/
  failures : List (String × Failure) := []
  deriving DecidableEq

namespace ExperimentReport

/-- The report with the outcome of one more check. -/
def add (x : ExperimentReport) (validator : String) :
    Except Failure Report → ExperimentReport
  | .ok report => { x with reports := x.reports ++ [report] }
  | .error failure => { x with failures := x.failures ++ [(validator, failure)] }

/-- The first report of a check with the given name. -/
def report? (x : ExperimentReport) (validator : String) : Option Report :=
  x.reports.find? (·.validator == validator)

/-- The number of errors in all reports. -/
def errorCount (x : ExperimentReport) : Nat := (x.reports.flatMap (·.errors)).length

/-- The number of warnings in all reports. -/
def warningCount (x : ExperimentReport) : Nat := (x.reports.flatMap (·.warnings)).length

/-- An experiment fails if a check could not run or its report is not valid. -/
def verdict (x : ExperimentReport) : Verdict :=
  if ! x.failures.isEmpty || x.reports.any (! ·.isValid) then .failed
  else if 0 < x.warningCount then .passedWithWarnings
  else .passed

/-- The text of a failure. -/
def renderFailure (validator : String) (failure : Failure) : String :=
  "\n== " ++ validator ++ ": exception ==\nEXCEPTION: " ++ failure.message ++ "\n"

/-- The whole report as plain text: the verdict, the failures, the reports. -/
def render (x : ExperimentReport) : String :=
  "Experiment " ++ x.verdict.render ++ "\n"
    ++ String.join (x.failures.map fun (validator, failure) => renderFailure validator failure)
    ++ String.join (x.reports.map Report.render)

end ExperimentReport

end RunAudit
