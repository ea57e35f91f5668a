import RunAudit.Config.App
import RunAudit.Report.Failure

/-!
# Experiments

What was done to the nodes of an experiment, and what they are expected to leave behind.

* `ExperimentConfig`: the description; without any setting it is a plain run.
* `ExperimentConfig.appRates`: the rates that the test application was configured for.
-/

namespace RunAudit.Config

/-- How the last node was made to reconnect. -/
inductive ReconnectScenario where
  /-- Its network was cut and restored. -/
  | killNetwork
  /-- Its process was killed and started again. -/
  | killNode
  deriving DecidableEq, Repr

/-- The description of an experiment. -/
structure ExperimentConfig where
  /-- How the last node was made to reconnect, if it was. -/
  reconnect : Option ReconnectScenario := none
  /-- The round of the saved state that the nodes started from. -/
  savedStateStartRound : UInt64 := 0
  /-- Whether nodes were frozen and restarted. -/
  freezeRestart : Bool := false
  /-- Whether nodes recovered their state from a saved one and the event stream. -/
  recoverState : Bool := false
  /-- Whether nodes wrote event streams. -/
  streaming : Bool := false
  /-- Whether event streams were recovered and compared with those that were written. -/
  recoverEventStream : Bool := false
  /-- The rates per node that the phases of the experiment should reach. -/
  throttleValues : List Float := []
  /-- Whether the test application throttles itself. -/
  useThrottle : Bool := false
  /-- The file name of the test application. -/
  appJar : String := ""
  /-- The configuration of the test application. -/
  appConfig : Option String := none
  /-- Whether nodes saved snapshots of their expected maps. -/
  lifecycle : Bool := false
  /-- Whether nodes migrated their state on startup. -/
  migration : Bool := false
  /-- Whether compensation for stale events is to be audited. -/
  gossipCompensation : Bool := false
  /-- Whether client suites ran against the nodes. -/
  hapiClient : Bool := false
  /-- Whether the nodes ran the services application. -/
  services : Bool := false
  /-- Whether every node should log that the test application finished. -/
  expectFinish : Bool := false
  /-- Whether the starts and ends of checks are logged. -/
  logEvents : Bool := false

/-- The file name of the test application that configures its own throttle phases. -/
def platformTestingApp : String := "PlatformTestingApp.jar"

namespace ExperimentConfig

/-- Whether the experiment runs the test application with throttle phases of its own. -/
def runsPlatformTestingApp (c : ExperimentConfig) : Bool := c.appJar == platformTestingApp

/-- Whether the throttle phases of the test application itself matter. -/
def usesAppThrottle (c : ExperimentConfig) : Bool := c.useThrottle && c.runsPlatformTestingApp

/-- The rates that the test application was configured for, in the order of its phases; none at all
if it does not throttle itself. -/
def appRates (wording : Wording) (c : ExperimentConfig) : Except Failure (List Float) :=
  if c.usesAppThrottle then
    match c.appConfig with
    | none => .error (.missingInput "Platform Testing App JSON config")
    | some text =>
      match AppConfig.read? text with
      | none => .error (.appConfig (wording.appConfig text))
      | some app => .ok app.rates
  else .ok []

end ExperimentConfig

end RunAudit.Config
