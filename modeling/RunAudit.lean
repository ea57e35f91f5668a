import RunAudit.Artifacts.Directory
import RunAudit.Experiment.Run
import RunAudit.Proofs.Severance
import RunAudit.Proofs.Surfacing
import RunAudit.Proofs.Isolation
import RunAudit.Proofs.Policies
import RunAudit.Proofs.Replicas
import RunAudit.Proofs.Agreement
import RunAudit.Proofs.Attempts
import RunAudit.Proofs.Forks
import RunAudit.Proofs.Escalation
import RunAudit.Proofs.Folding
import RunAudit.Proofs.Snapshots
import RunAudit.Proofs.Inheritance
import RunAudit.Proofs.Judges
import RunAudit.Proofs.Plateaus
import RunAudit.Proofs.SteadyRuns
import RunAudit.Proofs.Accounting
import RunAudit.Proofs.Removals
import RunAudit.Proofs.Signatures
import RunAudit.Proofs.Tallies
import RunAudit.Proofs.SuiteFailures
import RunAudit.Proofs.Recoveries
import RunAudit.Proofs.Stages
import RunAudit.Proofs.EventStreams
import RunAudit.Proofs.Acceptance
import RunAudit.Proofs.Unanimity
import RunAudit.Proofs.Divergence
import RunAudit.Proofs.Listings
import RunAudit.Proofs.LoggedLines
import RunAudit.Proofs.Rates
import RunAudit.Proofs.Layouts
import RunAudit.Proofs.Transposition
import RunAudit.Proofs.Offenders
import RunAudit.Proofs.Blocks
import RunAudit.Proofs.Draining
import RunAudit.Proofs.Reruns
import RunAudit.Proofs.Bracketing
import RunAudit.Proofs.Rendering
import RunAudit.Proofs.DigitRuns
import RunAudit.Proofs.Elapsed
