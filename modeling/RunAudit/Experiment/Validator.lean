import RunAudit.Check.Entities
import RunAudit.Check.Health
import RunAudit.Check.Milestones
import RunAudit.Check.Reconnection
import RunAudit.Check.Rounds
import RunAudit.Check.Streams
import RunAudit.Check.Suites
import RunAudit.Check.Throttle
import RunAudit.Experiment.Source
import RunAudit.Report.Basic

/-!
# Validators

A validator is a check with its inputs. Running it leaves it with its inputs read to the end, so a
second run is not a repetition.

* `Kind`, `required`: the kinds of validators, and those an experiment must pass.
* `Validator.create`: the validator of a kind over the artifacts of an experiment.
* `Validator.audit`: what it finds.
* `Validator.report`: its report.
-/

namespace RunAudit

open Check Config Snapshot EventStream

/-- The kinds of validators. -/
inductive Kind where
  | standard
  | stdout
  | reconnect
  | restart
  | recoverState
  | streamingServer
  | throttle
  | appThrottle
  | lifecycle
  | gossipCompensation
  | migration
  | hapiClient
  | services
  deriving DecidableEq, Repr

namespace Kind

/-- The name of the validators of a kind, as reports write it. -/
def name : Kind → String
  | standard => "StandardValidator"
  | stdout => "StdoutValidator"
  | reconnect => "ReconnectValidator"
  | restart => "RestartValidator"
  | recoverState => "RecoverStateValidator"
  | streamingServer => "StreamingServerValidator"
  | throttle => "ThrottleValidator"
  | appThrottle => "PTAThrottleValidator"
  | lifecycle => "PTALifecycleValidator"
  | gossipCompensation => "GossipCompensationValidator"
  | migration => "MigrationValidator"
  | hapiClient => "HAPIClientValidator"
  | services => "HGCAAValidator"

/-- All kinds, in the order they run. -/
def all : List Kind :=
  [standard, stdout, reconnect, restart, recoverState, streamingServer, throttle, appThrottle,
   lifecycle, gossipCompensation, migration, hapiClient, services]

/-- Whether an experiment must pass the validators of a kind. -/
def isRequired (c : ExperimentConfig) : Kind → Bool
  | standard | stdout => true
  | reconnect => c.reconnect.isSome
  | restart => c.freezeRestart
  | recoverState => c.recoverState
  | streamingServer => c.streaming
  | throttle => ! c.throttleValues.isEmpty
  | appThrottle => c.usesAppThrottle
  | lifecycle => c.lifecycle
  | gossipCompensation => c.gossipCompensation
  | migration => c.migration
  | hapiClient => c.hapiClient
  | services => c.services

end Kind

/-- The kinds of validators that an experiment must pass, in the order they run. -/
def required (c : ExperimentConfig) : List Kind := Kind.all.filter (Kind.isRequired c)

/-- A check with its inputs. -/
inductive Validator where
  | standard (nodes : List Node) (expectFinish : Bool) (policy : ExceptionPolicy)
  | stdout (nodes : List Node)
  | reconnect (nodes : List Node) (scenario : ReconnectScenario) (startRound : UInt64)
  | restart (nodes : List Node)
  | recoverState (nodes : List Node)
  | streamingServer (streams : List (Option StreamData)) (recovered : Bool)
  | throttle (nodes : List Node) (expected : List Float)
  /-- The rates are those of the test application's own configuration. -/
  | appThrottle (nodes : List Node) (expected : List Float)
  | lifecycle (maps : List (Option ExpectedMap))
  | gossipCompensation (nodes : List Node)
  | migration (nodes : List Node)
  | hapiClient (nodes : List Node)
  | services (nodes : List Node)

namespace Validator

/-- The kind of a validator. -/
def kind : Validator → Kind
  | standard .. => .standard
  | stdout .. => .stdout
  | reconnect .. => .reconnect
  | restart .. => .restart
  | recoverState .. => .recoverState
  | streamingServer .. => .streamingServer
  | throttle .. => .throttle
  | appThrottle .. => .appThrottle
  | lifecycle .. => .lifecycle
  | gossipCompensation .. => .gossipCompensation
  | migration .. => .migration
  | hapiClient .. => .hapiClient
  | services .. => .services

/-- The name of a validator, as reports write it. -/
def name (v : Validator) : String := v.kind.name

/-- The validator for the throttle phases of the test application's own configuration. -/
def ofAppRates (wording : Wording) (nodes : List Node) (c : ExperimentConfig) :
    Except Failure Validator := do
  return appThrottle nodes (← c.appRates wording)

/-- The validator of a kind over the artifacts of an experiment. -/
def create (kind : Kind) (source : Source) (c : ExperimentConfig) : Except Failure Validator :=
  match kind with
  | .standard => do return standard (← source.nodes) c.expectFinish (.ofConfig c)
  | .stdout => do return stdout (← source.nodes)
  | .reconnect =>
    match c.reconnect with
    | none => .error (.missingInput "reconnect scenario")
    | some scenario => do return reconnect (← source.nodes) scenario c.savedStateStartRound
  | .restart => do return restart (← source.nodes)
  | .recoverState => do return recoverState (← source.nodes)
  | .streamingServer => do return streamingServer (← source.streams) c.recoverEventStream
  | .throttle => do return throttle (← source.nodes) c.throttleValues
  | .appThrottle => do ofAppRates source.wording (← source.nodes) c
  | .lifecycle => do return lifecycle (← source.maps)
  | .gossipCompensation => do return gossipCompensation (← source.nodes)
  | .migration => do return migration (← source.nodes)
  | .hapiClient => do return hapiClient (← source.nodes)
  | .services => do return services (← source.nodes)

/-- What a validator finds, and the validator as the check leaves it. -/
def audit (v : Validator) : Audit Validator Unit :=
  match v with
  | standard nodes expectFinish policy =>
    (Health.auditStandard v.name expectFinish policy nodes).within (standard · expectFinish policy)
  | stdout nodes => (Health.auditStdout nodes).within stdout
  | reconnect nodes scenario startRound =>
    (Reconnection.audit v.name scenario startRound nodes).within (reconnect · scenario startRound)
  | restart nodes => (Restart.audit v.name nodes).within restart
  | recoverState nodes => (Recovery.audit v.name nodes).within recoverState
  | streamingServer streams recovered =>
    (Streams.audit recovered streams).within (streamingServer · recovered)
  | throttle nodes expected => .done (Throttle.findings v.name expected nodes) v ()
  | appThrottle nodes expected => .done (Throttle.findings v.name expected nodes) v ()
  | lifecycle maps => .done (Entities.findings maps) v ()
  | gossipCompensation nodes => (Compensation.audit v.name nodes).within gossipCompensation
  | migration nodes => (Migration.audit v.name nodes).within migration
  | hapiClient nodes => (Suites.audit nodes).within hapiClient
  | services nodes => (Health.auditServices v.name nodes).within services

/-- The report of a validator, complete if its check ran to the end. -/
def report (v : Validator) : Except Failure Report := Report.ofAudit v.name v.audit

/-- The events of a check. -/
def events (v : Validator) : List Event := v.audit.findings.filterMap Finding.event?

/-- A validator after its check. -/
def afterwards (v : Validator) : Validator := v.audit.inputs

/-- **A validator is of the kind that it was created as.** -/
theorem kind_of_create {kind : Kind} {source : Source} {c : ExperimentConfig} {v : Validator}
    (h : create kind source c = .ok v) : v.kind = kind := by
  have hn : ∀ (f : List Node → Validator) (k : Kind), (∀ nodes, (f nodes).kind = k) →
      (source.nodes.bind fun nodes => .ok (f nodes)) = .ok v → v.kind = k := by
    intro f k hf hv
    cases hs : source.nodes with
    | error e => simp [hs, Except.bind] at hv
    | ok nodes =>
      simp only [hs, Except.bind, Except.ok.injEq] at hv
      exact hv ▸ hf nodes
  cases kind with
  | reconnect =>
    simp only [create] at h
    split at h
    · simp at h
    · exact hn _ _ (fun _ => rfl) h
  | streamingServer =>
    cases hs : source.streams with
    | error e => simp [create, hs, bind, Except.bind] at h
    | ok streams =>
      simp only [create, hs, bind, Except.bind, pure, Except.pure, Except.ok.injEq] at h
      exact h ▸ rfl
  | lifecycle =>
    cases hs : source.maps with
    | error e => simp [create, hs, bind, Except.bind] at h
    | ok maps =>
      simp only [create, hs, bind, Except.bind, pure, Except.pure, Except.ok.injEq] at h
      exact h ▸ rfl
  | appThrottle =>
    cases hs : source.nodes with
    | error e => simp [create, hs, bind, Except.bind] at h
    | ok nodes =>
      cases hr : c.appRates source.wording with
      | error e => simp [create, hs, ofAppRates, hr, bind, Except.bind] at h
      | ok rates =>
        simp only [create, hs, ofAppRates, hr, bind, Except.bind, pure, Except.pure,
          Except.ok.injEq] at h
        exact h ▸ rfl
  | _ => exact hn _ _ (fun _ => rfl) h

end Validator

end RunAudit
