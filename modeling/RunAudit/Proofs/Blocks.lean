import Mathlib.Data.List.TakeWhile
import RunAudit.Proofs.Stages

/-!
# Nodes are reported on one by one

Five checks go through the nodes in turn, each with a cursor of its own, and carry nothing over from
one node to the next. What they say of a node is given here as a function of its place and of the
entries of the one log that they read. A report is then the blocks of all nodes, one behind the
other, and no block can be changed from outside.

* `stagesSaid`: what the search for stages says, as a function of the markers of a log.
* `Nodewise`: the five checks, and for each of them what it reads and what it says.
* `block`, `blocks`: what is said of one node and of each of them.
* `auditNode_eq_block`: the check of one node comes to its end and says what its block says.
* `reported_apart`: the reports on all nodes.
-/

namespace RunAudit

open Check Log Time

/-! ### The search for stages -/

namespace Check.Migration

variable {node : Nat} {wanted ms : List Marker} {fs fs' : List Finding}

/-- What is said of a node whose log has some markers, if stages are looked for. -/
def stagesSaid (node : Nat) : List Marker → List Marker → List Finding
  | _, [] => [.info s!"Node {node} completed the migration"]
  | ms, stage :: later =>
    match ms.dropWhile (· ≠ stage) with
    | [] => [.error s!"Node {node} never reached migration stage {stage.name}"]
    | _ :: behind => stagesSaid node behind later

theorem said_stagesSaid (node : Nat) (wanted ms : List Marker) :
    Said node wanted ms (stagesSaid node ms wanted) := by
  induction wanted generalizing ms with
  | nil => exact .completed (List.nil_sublist ms)
  | cons stage later ih =>
    rw [stagesSaid]
    cases hfound : ms.dropWhile (· ≠ stage) with
    | nil =>
      have hnone : stage ∉ ms := by
        intro hmem
        have hne := List.dropWhile_eq_nil_iff.1 hfound stage hmem
        simp at hne
      exact .of_notMem hnone
    | cons marker behind =>
      obtain rfl : marker = stage := by
        have hhead := List.head?_dropWhile_not (· ≠ stage) ms
        rw [hfound] at hhead
        simpa using hhead
      have hbefore : marker ∉ ms.takeWhile (· ≠ marker) := by
        intro hmem
        have hne := List.mem_takeWhile_imp hmem
        simp at hne
      have hsplit : ms = ms.takeWhile (· ≠ marker) ++ marker :: behind := by
        rw [← hfound, List.takeWhile_append_dropWhile]
      rw [hsplit]
      exact (ih behind).behind_first hbefore

/-- Of the markers of a log only one thing can be said. -/
theorem Said.unique (h : Said node wanted ms fs) (h' : Said node wanted ms fs') : fs = fs' := by
  by_cases hall : wanted.Sublist ms
  · rw [h.eq_completed hall, h'.eq_completed hall]
  · obtain ⟨k, stage, hk, hstage, rfl⟩ := h.eq_stopped hall
    obtain ⟨k', stage', hk', hstage', rfl⟩ := h'.eq_stopped hall
    have hsame : k = k' := Nat.le_antisymm (hk'.2 hk.1) (hk.2 hk'.1)
    subst hsame
    rw [hstage] at hstage'
    cases hstage'
    rfl

end Check.Migration

/-! ### What is said of a log

Each of these goes by the place of the node and by the entries of its log, or of its standard
output. -/

/-- Of rounds without a number, then of the rounds, then of the exceptions. -/
def Check.Restart.said (place : Nat) (es : List Entry) : List Finding :=
  (es.filter fun e => Restart.isRound e.marker).flatMap (Restart.roundFindings place)
    ++ (Restart.compareFindings place (Restart.roundsOf .freezeStateSaved es)
        (Restart.roundsOf .loadRestart es)
      ++ exceptionFindings place "log" judgeRestart (es.filter (·.isException)))

/-- Of each compensation. -/
def Check.Compensation.said (place : Nat) (es : List Entry) : List Finding :=
  (es.filter fun e => Compensation.isCompensation e.marker).flatMap (Compensation.findings place)

/-- Of the stages of the migration. -/
def Check.Migration.said (place : Nat) (es : List Entry) : List Finding :=
  stagesSaid place (markers es) stages

/-- Of the exceptions in a log. -/
def Check.Health.servicesSaid (place : Nat) (es : List Entry) : List Finding :=
  exceptionFindings place "log" judgeServices (es.filter (·.isException))

/-- Of the exceptions in standard output, by how long before its end they were raised. -/
def Check.Health.stdoutSaid (place : Nat) (es : List Entry) : List Finding :=
  exceptionFindings place "stdout" (judgePlain (es.filterMap (·.timestamp)).getLast?)
    (es.filter (·.isException))

/-! ### Checks of one node after another -/

/-- The checks that look at each node for itself. -/
inductive Nodewise where
  | restart
  | gossipCompensation
  | migration
  | services
  | stdout
  deriving DecidableEq, Repr

namespace Nodewise

variable {check : Nodewise} {n : Node}

/-- The kind of validators that make a check. -/
def kind : Nodewise → Kind
  | restart => .restart
  | gossipCompensation => .gossipCompensation
  | migration => .migration
  | services => .services
  | stdout => .stdout

/-- The validator that makes a check of some nodes. -/
def validator : Nodewise → List Node → Validator
  | restart => .restart
  | gossipCompensation => .gossipCompensation
  | migration => .migration
  | services => .services
  | stdout => .stdout

/-- What a check reads of a node. -/
def artifact : Nodewise → Node → Option Cursor
  | stdout, node => node.stdout
  | _, node => node.log

/-- What a check says of a node that has nothing to read. -/
def missing : Nodewise → Nat → List Finding
  | stdout, _ => []
  | check, place => logMissing check.kind.name place

/-- What a check says of a node, by its place and the entries of what the check reads. -/
def said : Nodewise → Nat → List Entry → List Finding
  | restart => Restart.said
  | gossipCompensation => Compensation.said
  | migration => Migration.said
  | services => Health.servicesSaid
  | stdout => Health.stdoutSaid

/-- The entries of what a check reads of a node, as long as it has not been read. -/
def entries? (check : Nodewise) (n : Node) : Option (List Entry) :=
  (check.artifact n).map fun c => entriesIn c.lines

/-- **What is said of one node**: it goes by its place and by what the check reads of it. -/
def block (check : Nodewise) (place : Nat) (n : Node) : List Finding :=
  match check.entries? n with
  | none => check.missing place
  | some es => check.said place es

/-- What is said of each node. -/
def blocks (check : Nodewise) (nodes : List Node) : List (List Finding) :=
  nodes.mapIdx check.block

/-- A node of which the check reads a text that has not been read yet, or nothing. -/
def Readable (check : Nodewise) (n : Node) : Prop :=
  ∀ c, check.artifact n = some c → ∃ text, c = .ofText .platform text

/-- The check of one node. -/
def auditNode : Nodewise → Nat → Node → Audit Node Unit
  | restart => Node.auditLog Kind.restart.name () Restart.auditLog
  | gossipCompensation => Node.auditLog Kind.gossipCompensation.name () Compensation.auditLog
  | migration => Migration.auditNode
  | services => Node.auditLog Kind.services.name () Health.auditServicesLog
  | stdout => Health.auditNodeStdout

theorem audit_validator (check : Nodewise) (nodes : List Node) :
    (check.validator nodes).audit =
      ((Audit.each check.auditNode nodes).conclude fun _ _ => []).within check.validator := by
  cases check <;> rfl

/-! ### The check of one node -/

/-- A check of the log of a node says what it says of the entries. -/
theorem findings_auditLog (h : n.Fresh) (validator : String) {f : Nat → Cursor → Audit Cursor Unit}
    {tells : Nat → List Entry → List Finding}
    (hf : ∀ place lines, Decodable lines →
      ∃ c, f place { lines } = .done (tells place (entriesIn lines)) c ()) (place : Nat) :
    (n.auditLog validator () f place).result = .ok () ∧
      (n.auditLog validator () f place).findings =
        match n.entries? with
        | none => logMissing validator place
        | some es => tells place es := by
  rcases auditLog_cases h validator () f place with ⟨he, ha⟩ | ⟨lines, hd, he, ha⟩
  · rw [ha, he]
    exact ⟨rfl, rfl⟩
  · obtain ⟨c, hc⟩ := hf place lines hd
    rw [ha, he, hc]
    exact ⟨rfl, rfl⟩

theorem auditLog_restart (place : Nat) {lines : List Line} (h : Decodable lines) :
    ∃ c, Restart.auditLog place { lines } =
      .done (Restart.said place (entriesIn lines)) c () := by
  rcases sweep_cases Restart.isRound (List.flatMap (Restart.roundFindings place)) lines with
    ⟨-, c, hs, hexceptions⟩ | ⟨hn, -⟩
  · refine ⟨c, ?_⟩
    unfold Restart.auditLog Restart.said
    rw [hs, Audit.conclude_of_ok rfl, ← hexceptions,
      Restart.roundsOf_filter .freezeStateSaved rfl, Restart.roundsOf_filter .loadRestart rfl]
    rfl
  · exact absurd h hn

theorem auditLog_compensation (place : Nat) {lines : List Line} (h : Decodable lines) :
    ∃ c, Compensation.auditLog place { lines } =
      .done (Compensation.said place (entriesIn lines)) c () := by
  rcases sweep_cases Compensation.isCompensation (List.flatMap (Compensation.findings place)) lines
    with ⟨-, c, hs, -⟩ | ⟨hn, -⟩
  · refine ⟨c, ?_⟩
    unfold Compensation.auditLog Compensation.said
    rw [hs, Audit.conclude_of_ok rfl, Audit.findings_done, List.append_nil]
    rfl
  · exact absurd h hn

theorem auditStages_migration (place : Nat) {lines : List Line} (h : Decodable lines) :
    ∃ c, Migration.auditStages place { lines } Migration.stages =
      .done (Migration.said place (entriesIn lines)) c () := by
  have hstart := Cursor.follows_start lines
  rw [inspected_of_decodable h] at hstart
  obtain ⟨fs, c, hstages, hsaid⟩ := Migration.auditStages_of_clear place Migration.stages hstart
    ((Cursor.clear_start_iff lines).2 h)
  have hfs : fs = Migration.said place (entriesIn lines) :=
    hsaid.unique (Migration.said_stagesSaid place Migration.stages _)
  exact ⟨c, hfs ▸ hstages⟩

/-- Reading a log to its end leaves its exceptions and its last timestamp. -/
theorem finish_start {lines : List Line} (h : Decodable lines) :
    ∃ c, finish { lines } = .done [] c [] ∧
      c.exceptions = (entriesIn lines).filter (·.isException) ∧
      c.lastTimestamp = ((entriesIn lines).filterMap (·.timestamp)).getLast? := by
  rcases sweep_start (fun _ => false) (fun _ => []) lines with ⟨-, c, hs, hat⟩ | ⟨hn, -⟩
  · refine ⟨c, ?_, ?_, ?_⟩
    · rw [finish, hs, List.filter_false]
    · rw [hat.exceptions, List.take_length]
    · rw [hat.lastTimestamp, List.take_length]
  · exact absurd h hn

theorem auditLog_services (place : Nat) {lines : List Line} (h : Decodable lines) :
    ∃ c, Health.auditServicesLog place { lines } =
      .done (Health.servicesSaid place (entriesIn lines)) c () := by
  obtain ⟨c, hfinish, hexceptions, -⟩ := finish_start h
  refine ⟨c, ?_⟩
  unfold Health.auditServicesLog Health.servicesSaid
  rw [hfinish, Audit.conclude_of_ok rfl, ← hexceptions]
  rfl

theorem findings_auditNodeStdout (h : Readable .stdout n) (place : Nat) :
    (Health.auditNodeStdout place n).result = .ok () ∧
      (Health.auditNodeStdout place n).findings = block .stdout place n := by
  show _ ∧ _ = match n.stdout.map fun c => entriesIn c.lines with
    | none => []
    | some es => Health.stdoutSaid place es
  unfold Health.auditNodeStdout
  cases hs : n.stdout with
  | none => exact ⟨rfl, rfl⟩
  | some c =>
    obtain ⟨text, rfl⟩ := h c hs
    obtain ⟨c', hfinish, hexceptions, hlast⟩ := finish_start (decodable_linesOf .platform text)
    have hread : (finish (Cursor.ofText .platform text)).conclude (fun c _ =>
        exceptionFindings place "stdout" (judgePlain c.lastTimestamp) c.exceptions) =
          .done (Health.stdoutSaid place (entriesIn (linesOf .platform (utf8 text)))) c' () := by
      have hstart : finish (Cursor.ofText .platform text) = .done [] c' [] := hfinish
      rw [hstart, Audit.conclude_of_ok rfl]
      unfold Health.stdoutSaid
      rw [← hexceptions, ← hlast]
      rfl
    exact ⟨congrArg Audit.result hread, congrArg Audit.findings hread⟩

/-- **The check of one node comes to its end and says what its block says.** -/
theorem auditNode_eq_block (h : check.Readable n) (place : Nat) :
    (check.auditNode place n).result = .ok () ∧
      (check.auditNode place n).findings = check.block place n := by
  cases check with
  | restart => exact findings_auditLog h _ (fun place _ => auditLog_restart place) place
  | gossipCompensation =>
    exact findings_auditLog h _ (fun place _ => auditLog_compensation place) place
  | migration => exact findings_auditLog h _ (fun place _ => auditStages_migration place) place
  | services => exact findings_auditLog h _ (fun place _ => auditLog_services place) place
  | stdout => exact findings_auditNodeStdout h place

/-- Nodes for whose report the given blocks are put one behind the other. -/
def Reports (check : Nodewise) (nodes : List Node) (blocks : List (List Finding)) : Prop :=
  ∃ r, (check.validator nodes).report = .ok r ∧ r.validated = true ∧
    r.errors = blocks.flatMap (·.filterMap Finding.error?) ∧
    r.warnings = blocks.flatMap (·.filterMap Finding.warning?) ∧
    r.infos = blocks.flatMap (·.filterMap Finding.info?)

/-- **A report is put together from the blocks of the nodes.** -/
theorem reports_blocks (check : Nodewise) {nodes : List Node} (h : ∀ n ∈ nodes, check.Readable n) :
    check.Reports nodes (check.blocks nodes) := by
  have haudit := Audit.conclude_each
    (fun place n hn => (auditNode_eq_block (h n hn) place).1) fun _ _ => []
  have hblocks : (nodes.mapIdx fun i n => (check.auditNode i n).findings) = check.blocks nodes := by
    refine List.mapIdx_eq_mapIdx_iff.2 fun i hi => ?_
    exact (auditNode_eq_block (h _ (List.getElem_mem hi)) i).2
  rw [List.append_nil, hblocks] at haudit
  unfold Reports Validator.report
  rw [audit_validator, haudit]
  exact ⟨_, rfl, rfl, List.filterMap_flatten .., List.filterMap_flatten ..,
    List.filterMap_flatten ..⟩

/-- **A block goes by its place and by what the check reads there.** -/
theorem getElem?_blocks_congr {nodes nodes' : List Node} {i : Nat}
    (h : nodes'[i]?.map check.artifact = nodes[i]?.map check.artifact) :
    (check.blocks nodes')[i]? = (check.blocks nodes)[i]? := by
  have hblock : ∀ ns : List Node, (check.blocks ns)[i]? =
      (ns[i]?.map check.artifact).map fun c =>
        (c.map fun c => check.said i (entriesIn c.lines)).getD (check.missing i) := by
    intro ns
    unfold blocks
    rw [List.getElem?_mapIdx, Option.map_map]
    refine congrArg (ns[i]?.map ·) (funext fun n => ?_)
    unfold block entries? Function.comp
    cases check.artifact n <;> rfl
  rw [hblock, hblock, h]

/-- What is said of a node that has nothing to read. -/
theorem messages_missing (check : Nodewise) (place : Nat) :
    (check.missing place).filterMap Finding.error? =
        (if check = .stdout then [] else [s!"Node {place} log is missing or unreadable"]) ∧
      (check.missing place).filterMap Finding.warning? = [] ∧
      (check.missing place).filterMap Finding.info? = [] := by
  cases check <;> exact ⟨rfl, rfl, rfl⟩

/-- **What is said of one node is kept apart from what is said of others.** If everything that a
check reads is a text, it comes to its end, and the errors, the warnings and the infos of its report
are each put together from one block for each node, in the order of the nodes. A node without a log
has one error, which says so, in its block and nothing else, and one without standard output has
nothing in it. The block of a node is the same in the report on any other nodes, as long as the node
at its place has the same to read. -/
theorem reported_apart (check : Nodewise) (nodes : List Node) (h : ∀ n ∈ nodes, check.Readable n) :
    check.Reports nodes (check.blocks nodes) ∧
      (check.blocks nodes).length = nodes.length ∧
      (∀ (i : Nat) (n : Node), nodes[i]? = some n → check.artifact n = none →
        ∃ fs, (check.blocks nodes)[i]? = some fs ∧
          List.filterMap Finding.error? fs =
            (if check = .stdout then [] else [s!"Node {i} log is missing or unreadable"]) ∧
          List.filterMap Finding.warning? fs = [] ∧ List.filterMap Finding.info? fs = []) ∧
      ∀ nodes' : List Node, (∀ n ∈ nodes', check.Readable n) →
        check.Reports nodes' (check.blocks nodes') ∧
          ∀ i : Nat, nodes'[i]?.map check.artifact = nodes[i]?.map check.artifact →
            (check.blocks nodes')[i]? = (check.blocks nodes)[i]? := by
  refine ⟨reports_blocks check h, List.length_mapIdx .., ?_, fun nodes' h' =>
    ⟨reports_blocks check h', fun i => getElem?_blocks_congr⟩⟩
  intro i n hn hmissing
  have hblock : check.block i n = check.missing i := by
    unfold block entries?
    rw [hmissing]
    rfl
  refine ⟨check.missing i, ?_, messages_missing check i⟩
  rw [blocks, List.getElem?_mapIdx, hn, Option.map_some, hblock]

/-- The log of a node that did not restart. -/
def failedLog : String :=
  "2024-03-01 10:00:00 EXCEPTION disk full\n" ++
  "2024-03-01 10:00:00 FREEZE_STATE_SAVED"

/-- Behind a node that restarted and one without a log. -/
def behindRestarted : List Node :=
  nodesLogging ["2024-03-01 10:00:00 FREEZE_STATE_SAVED round 7\n" ++
    "2024-03-01 10:00:00 LOAD_RESTART round 7"] ++ {} :: nodesLogging [failedLog]

/-- Behind nodes with nothing but a stack trace and an empty log. -/
def behindOthers : List Node := nodesLogging ["\tat x", "", failedLog]

theorem reported_apart_behindOthers :
    (∀ n ∈ behindRestarted, Readable .restart n) ∧ (∀ n ∈ behindOthers, Readable .restart n) ∧
      (∃ r, (Validator.restart behindRestarted).report = .ok r ∧
        r.infos = ["Node 0 restarted from its frozen rounds [7]"] ∧
        r.errors = ["Node 1 log is missing or unreadable",
          "Node 2 logged FREEZE_STATE_SAVED without a round number: ",
          "Node 2 never saved a freeze state", "Node 2 log has EXCEPTION: disk full"]) ∧
      (blocks .restart behindOthers)[2]? = (blocks .restart behindRestarted)[2]? := by
  have hread : ∀ n ∈ behindRestarted, Readable .restart n := by
    intro n hn
    rcases List.mem_append.1 hn with hn | hn
    · exact nodesLogging_fresh _ n hn
    · rcases List.mem_cons.1 hn with rfl | hn
      · intro c hc
        cases hc
      · exact nodesLogging_fresh _ n hn
  have hothers : ∀ n ∈ behindOthers, Readable .restart n := nodesLogging_fresh _
  obtain ⟨⟨r, hr, -, herrors, -, hinfos⟩, -, -, hsame⟩ :=
    reported_apart .restart behindRestarted hread
  refine ⟨hread, hothers, ⟨r, hr, ?_, ?_⟩, (hsame _ hothers).2 2 rfl⟩
  · rw [hinfos]
    decide +kernel
  · rw [herrors]
    decide +kernel

end Nodewise

end RunAudit
