import RunAudit.Report.Failure

/-!
# What a check finds

A check yields a list of findings, in the order it makes them: messages for its report and events
for those who watch it run. It also leaves its inputs read up to some point, and either comes to a
result or fails.

* `Event.line`: an event as it is logged.
* `Audit`: the outcome of a check or of a part of one.
* `Audit.andThen`: one part after another; a failure ends the check, and what was found stays.
* `Audit.each`: a check of every node in turn, up to the first that fails.
-/

namespace RunAudit

/-- How much an event matters. -/
inductive Level where
  | debug
  | info
  | warn
  deriving DecidableEq, Repr

/-- The name of a level. -/
def Level.name : Level → String
  | debug => "DEBUG"
  | info => "INFO"
  | warn => "WARN"

/-- Something that happens while an experiment is validated, but for the time at which it does. -/
inductive Event where
  | validationStart (validator : String) (nodeCount : Nat)
  | validationEnd (validator : String) (valid : Bool) (errors warnings infos : Nat)
  | failedToRun (validator : String) (failure : Failure)
  | logMissing (validator : String) (node : Nat)
  | metricsMissing (validator : String) (node : Nat)
  /-- The seconds are unknown if an end of the attempt has no timestamp. -/
  | reconnectFinished (node : Nat) (seconds : Option Int)
  | reconnectAborted (node : Nat)
  /-- The two rates are given as text. -/
  | throttlePhase (phase : Nat) (expected actual : String)
  | experimentVerdict (verdict : String) (failures errors warnings : Nat)
  deriving DecidableEq

namespace Event

/-- How much an event matters. -/
def level : Event → Level
  | validationStart .. | validationEnd .. | experimentVerdict .. => .info
  | failedToRun .. => .warn
  | _ => .debug

/-- The name of an event and its fields. -/
def fields : Event → List String
  | validationStart validator nodeCount => ["ValidationStart", validator, toString nodeCount]
  | validationEnd validator valid errors warnings infos =>
    ["ValidationEnd", validator, toString valid, toString errors, toString warnings,
     toString infos]
  | failedToRun validator failure => ["ValidationFailedToRun", validator, failure.message]
  | logMissing validator node => ["NodeLogMissing", validator, toString node]
  | metricsMissing validator node => ["NodeCsvMissing", validator, toString node]
  | reconnectFinished node seconds =>
    ["ReconnectFinished", toString node, (seconds.map toString).getD ""]
  | reconnectAborted node => ["ReconnectAborted", toString node, ""]
  | throttlePhase phase expected actual => ["ThrottlePhase", toString phase, expected, actual]
  | experimentVerdict verdict failures errors warnings =>
    ["ExperimentVerdict", verdict, toString failures, toString errors, toString warnings]

/-- An event as it is logged: its level, its name and its fields. -/
def line (e : Event) : String := e.level.name ++ " " ++ String.intercalate ", " e.fields

end Event

/-- One thing that a check finds. -/
inductive Finding where
  /-- A tolerated divergence or a note on progress. -/
  | info (message : String)
  /-- A breach of a threshold, or what is legal but suspicious. -/
  | warning (message : String)
  /-- A missing input or a broken invariant. It makes the report invalid. -/
  | error (message : String)
  | event (e : Event)
  deriving DecidableEq

namespace Finding

/-- The message of an info. -/
def info? : Finding → Option String
  | info message => some message
  | _ => none

/-- The message of a warning. -/
def warning? : Finding → Option String
  | warning message => some message
  | _ => none

/-- The message of an error. -/
def error? : Finding → Option String
  | error message => some message
  | _ => none

/-- The event of a finding that is one. -/
def event? : Finding → Option Event
  | event e => some e
  | _ => none

end Finding

/-- The outcome of a check: its findings, its inputs as it leaves them, and its result. -/
structure Audit (σ α : Type) where
  findings : List Finding
  inputs : σ
  result : Except Failure α

namespace Audit

variable {σ τ α β : Type}

/-- The outcome of a check that reads nothing further. -/
def done (findings : List Finding) (inputs : σ) (a : α) : Audit σ α := ⟨findings, inputs, .ok a⟩

/-- One part of a check after another. A failure of the first is the failure of both. -/
def andThen (first : Audit σ α) (next : σ → α → Audit σ β) : Audit σ β :=
  match first.result with
  | .error failure => ⟨first.findings, first.inputs, .error failure⟩
  | .ok a =>
    let second := next first.inputs a
    { second with findings := first.findings ++ second.findings }

/-- More findings at the end of a check, made from its inputs and its result. -/
def conclude (first : Audit σ α) (more : σ → α → List Finding) : Audit σ Unit :=
  first.andThen fun inputs a => done (more inputs a) inputs ()

/-- The same outcome with its inputs seen as part of something larger. -/
def within (a : Audit σ α) (wrap : σ → τ) : Audit τ α := ⟨a.findings, wrap a.inputs, a.result⟩

/-- A check of every item in turn, with the item's place. The first failure ends it, and the items
behind stay as they are. -/
def eachFrom (check : Nat → σ → Audit σ α) (place : Nat) : List σ → Audit (List σ) (List α)
  | [] => done [] [] []
  | item :: items =>
    let first := check place item
    match first.result with
    | .error failure => ⟨first.findings, first.inputs :: items, .error failure⟩
    | .ok a =>
      let later := eachFrom check (place + 1) items
      ⟨first.findings ++ later.findings, first.inputs :: later.inputs,
        later.result.map (a :: ·)⟩

/-- A check of every item in turn, from place zero. -/
def each (check : Nat → σ → Audit σ α) (items : List σ) : Audit (List σ) (List α) :=
  eachFrom check 0 items

@[simp] theorem andThen_done (findings : List Finding) (inputs : σ) (a : α)
    (next : σ → α → Audit σ β) :
    (done findings inputs a).andThen next =
      { next inputs a with findings := findings ++ (next inputs a).findings } := rfl

end Audit

end RunAudit
