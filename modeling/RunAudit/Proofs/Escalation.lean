import Mathlib.Data.List.Forall2
import RunAudit.Proofs.Isolation

/-!
# Auditing more

An experiment of which more is audited requires more validators. Those it required before come to
what they came to before, with two exceptions that can only say more: one warns of nodes on which
the test application did not finish, the other complains of nodes that did not compare their
recovered events. So nothing is lost by auditing more, and the verdict gets no better.

* `Gains`: a list with more items in between.
* `Audit.GainsTo`: a check that reads and answers as before, and finds more.
* `gainsTo_auditStandard`, `gainsTo_streams`: the two checks that can be told to look for more.
* `grows_outcome`: what a required validator comes to.
* `severity_le_of_le`: how the verdict follows the counts.
* `auditing_more`: the whole experiment.
-/

namespace RunAudit

open Check Config

/-! ### Lists with more items -/

/-- The second list is the first with more items in between, each of which is of the given sort. -/
inductive Gains {α : Type} (extra : α → Prop) : List α → List α → Prop
  | nil : Gains extra [] []
  | keep (a : α) {as bs : List α} (h : Gains extra as bs) : Gains extra (a :: as) (a :: bs)
  | gain {a : α} {as bs : List α} (ha : extra a) (h : Gains extra as bs) : Gains extra as (a :: bs)

namespace Gains

variable {α β : Type} {extra : α → Prop} {as bs cs ds : List α}

theorem refl (extra : α → Prop) (as : List α) : Gains extra as as := by
  induction as with
  | nil => exact .nil
  | cons a as ih => exact .keep a ih

theorem of_forall (h : ∀ a ∈ as, extra a) : Gains extra [] as := by
  induction as with
  | nil => exact .nil
  | cons a as ih =>
    rw [List.forall_mem_cons] at h
    exact .gain h.1 (ih h.2)

theorem append (h : Gains extra as bs) (h' : Gains extra cs ds) :
    Gains extra (as ++ cs) (bs ++ ds) := by
  induction h with
  | nil => exact h'
  | keep a _ ih => exact .keep a ih
  | gain ha _ ih => exact .gain ha ih

theorem flatten_mapIdx {f g : Nat → β → List α} (h : ∀ i b, Gains extra (f i b) (g i b))
    (bs : List β) : Gains extra (bs.mapIdx f).flatten (bs.mapIdx g).flatten := by
  induction bs generalizing f g with
  | nil => exact .nil
  | cons b bs ih =>
    rw [List.mapIdx_cons, List.mapIdx_cons, List.flatten_cons, List.flatten_cons]
    exact (h 0 b).append (ih fun i b => h (i + 1) b)

theorem sublist (h : Gains extra as bs) : as.Sublist bs := by
  induction h with
  | nil => exact .slnil
  | keep a _ ih => exact ih.cons_cons a
  | gain _ _ ih => exact ih.cons _

theorem eq_of_forall_not (h : Gains extra as bs) (hn : ∀ a, ¬ extra a) : bs = as := by
  induction h with
  | nil => rfl
  | keep a _ ih => rw [ih]
  | gain ha _ _ => exact absurd ha (hn _)

theorem filterMap {f : α → Option β} {sort : β → Prop}
    (hf : ∀ a b, extra a → f a = some b → sort b) (h : Gains extra as bs) :
    Gains sort (as.filterMap f) (bs.filterMap f) := by
  induction h with
  | nil => exact .nil
  | keep a _ ih =>
    cases ha : f a with
    | none => rwa [List.filterMap_cons_none ha, List.filterMap_cons_none ha]
    | some b =>
      rw [List.filterMap_cons_some ha, List.filterMap_cons_some ha]
      exact .keep b ih
  | @gain a _ _ hx _ ih =>
    cases ha : f a with
    | none => rwa [List.filterMap_cons_none ha]
    | some b =>
      rw [List.filterMap_cons_some ha]
      exact .gain (hf a b hx ha) ih

end Gains

/-! ### Checks that look for more -/

namespace Audit

variable {σ τ α : Type} {extra : Finding → Prop}

/-- The second check reads and answers as the first, and finds the same and more. -/
structure GainsTo (extra : Finding → Prop) (a a' : Audit σ α) : Prop where
  findings : Gains extra a.findings a'.findings
  inputs : a'.inputs = a.inputs
  result : a'.result = a.result

namespace GainsTo

variable {a a' : Audit σ α}

theorem refl (extra : Finding → Prop) (a : Audit σ α) : GainsTo extra a a :=
  ⟨.refl extra a.findings, rfl, rfl⟩

theorem within (h : GainsTo extra a a') (wrap : σ → τ) :
    GainsTo extra (a.within wrap) (a'.within wrap) :=
  ⟨h.findings, congrArg wrap h.inputs, h.result⟩

theorem conclude (h : GainsTo extra a a') {more more' : σ → α → List Finding}
    (hm : ∀ inputs x, Gains extra (more inputs x) (more' inputs x)) :
    GainsTo extra (a.conclude more) (a'.conclude more') := by
  cases hr : a.result with
  | error failure =>
    have hr' := h.result.trans hr
    unfold Audit.conclude Audit.andThen
    rw [hr, hr']
    exact ⟨h.findings, h.inputs, rfl⟩
  | ok x =>
    have hr' := h.result.trans hr
    rw [conclude_of_ok hr, conclude_of_ok hr', h.inputs]
    exact ⟨h.findings.append (hm a.inputs x), rfl, rfl⟩

theorem eachFrom {check check' : Nat → σ → Audit σ α}
    (h : ∀ place item, GainsTo extra (check place item) (check' place item))
    (place : Nat) (items : List σ) :
    GainsTo extra (eachFrom check place items) (eachFrom check' place items) := by
  induction items generalizing place with
  | nil => exact refl extra _
  | cons item items ih =>
    have hfirst := h place item
    have hlater := ih (place + 1)
    simp only [Audit.eachFrom, hfirst.result, hfirst.inputs]
    -- neither looks at what is behind a failure
    cases (check place item).result with
    | error failure => exact ⟨hfirst.findings, rfl, rfl⟩
    | ok x =>
      simp only [hlater.result, hlater.inputs]
      exact ⟨hfirst.findings.append hlater.findings, rfl, rfl⟩

theorem auditLog {check check' : Nat → Log.Cursor → Audit Log.Cursor α}
    (h : ∀ place c, GainsTo extra (check place c) (check' place c))
    (validator : String) (missing : α) (place : Nat) (node : Node) :
    GainsTo extra (node.auditLog validator missing check place)
      (node.auditLog validator missing check' place) := by
  unfold Node.auditLog
  cases node.log with
  | none => exact refl extra _
  | some c => exact (h place c).within _

end GainsTo

end Audit

/-- The warning of a node on which the test application did not finish. -/
def Unfinished (f : Finding) : Prop :=
  ∃ node : Nat, f = .warning s!"Node {node} never reported that the test app finished"

/-- The error of a node that did not compare its recovered events. -/
def Uncompared (f : Finding) : Prop :=
  ∃ node : Nat, f = .error s!"Node {node} did not report whether its recovered events match"

theorem gains_finishFindings (node : Nat) (progress : List Log.Entry) :
    Gains Unfinished [] (Health.finishFindings node progress) := by
  refine .of_forall fun f hf => ?_
  unfold Health.finishFindings at hf
  split at hf
  · cases hf
  · exact ⟨node, List.mem_singleton.1 hf⟩

/-- **Told that the test application should have finished**, the check of every run warns of the
nodes on which it did not, and is otherwise the same. -/
theorem gainsTo_auditStandard (validator : String) (policy : ExceptionPolicy)
    (nodes : List Node) :
    Audit.GainsTo Unfinished (Health.auditStandard validator false policy nodes)
      (Health.auditStandard validator true policy nodes) := by
  have hlog : ∀ last place c, Audit.GainsTo Unfinished
      (Health.auditLog false policy last place c) (Health.auditLog true policy last place c) := by
    intro last place c
    refine (Audit.GainsTo.refl Unfinished _).conclude fun c progress => ?_
    exact (gains_finishFindings place progress).append (.refl _ _)
  have heach := Audit.GainsTo.eachFrom (fun place node =>
    Audit.GainsTo.auditLog (hlog (nodes.length - 1)) validator () place node) 0 nodes
  exact heach.conclude fun inputs _ => .refl _ (Statistics.findings validator inputs)

theorem gains_recoveredFindings (node : Nat) (d : Option EventStream.StreamData) :
    Gains Uncompared (Streams.recoveredFindings false node d)
      (Streams.recoveredFindings true node d) := by
  cases d with
  | none => exact .nil
  | some d =>
    unfold Streams.recoveredFindings
    dsimp only
    cases d.recoveredMatch with
    | some line => exact .refl _ _
    | none => exact .gain ⟨node, rfl⟩ .nil

/-- **Told that events were recovered**, the check of event streams complains of the nodes that did
not compare them, and is otherwise the same. -/
theorem gainsTo_streams (streams : List (Option EventStream.StreamData)) :
    Audit.GainsTo Uncompared (Streams.audit false streams) (Streams.audit true streams) := by
  unfold Streams.audit
  split
  · exact .refl _ _
  · have hnodes := Gains.flatten_mapIdx gains_recoveredFindings streams
    exact ⟨(Gains.refl _ _).append hnodes, rfl, rfl⟩

/-! ### Experiments of which more is audited -/

/-- The second description differs from the first only in that it asks for more to be audited. What
was done to the nodes is the same. -/
structure Config.ExperimentConfig.AuditsMore (c c' : ExperimentConfig) : Prop where
  reconnect : c'.reconnect = c.reconnect
  savedStateStartRound : c'.savedStateStartRound = c.savedStateStartRound
  freezeRestart : c'.freezeRestart = c.freezeRestart
  recoverState : c'.recoverState = c.recoverState
  appJar : c'.appJar = c.appJar
  appConfig : c'.appConfig = c.appConfig
  logEvents : c'.logEvents = c.logEvents
  streaming : c.streaming = true → c'.streaming = true
  recoverEventStream : c.recoverEventStream = true → c'.recoverEventStream = true
  lifecycle : c.lifecycle = true → c'.lifecycle = true
  gossipCompensation : c.gossipCompensation = true → c'.gossipCompensation = true
  migration : c.migration = true → c'.migration = true
  hapiClient : c.hapiClient = true → c'.hapiClient = true
  services : c.services = true → c'.services = true
  useThrottle : c.useThrottle = true → c'.useThrottle = true
  expectFinish : c.expectFinish = true → c'.expectFinish = true
  throttleValues : c'.throttleValues = c.throttleValues ∨ c.throttleValues = []

variable {source : Source} {c c' : ExperimentConfig} {kind : Kind}

/-- A warning that the report of a validator may have only under the second description. -/
def NewWarning (c c' : ExperimentConfig) (validator message : String) : Prop :=
  validator = Kind.standard.name ∧ c.expectFinish = false ∧ c'.expectFinish = true ∧
    Unfinished (.warning message)

/-- An error that the report of a validator may have only under the second description. -/
def NewError (c c' : ExperimentConfig) (validator message : String) : Prop :=
  validator = Kind.streamingServer.name ∧
    c.recoverEventStream = false ∧ c'.recoverEventStream = true ∧ Uncompared (.error message)

/-- The second report, made under the second description, is the first one with nothing but such
warnings and errors added. -/
structure Report.Grows (c c' : ExperimentConfig) (r r' : Report) : Prop where
  validator : r'.validator = r.validator
  validated : r'.validated = r.validated
  infos : r'.infos = r.infos
  warnings : Gains (NewWarning c c' r.validator) r.warnings r'.warnings
  errors : Gains (NewError c c' r.validator) r.errors r'.errors

/-- A validator that fails fails as before, and one that has a report has one that has grown. -/
inductive OutcomeGrows (c c' : ExperimentConfig) :
    Except Failure Report → Except Failure Report → Prop
  | failure (failure : Failure) : OutcomeGrows c c' (.error failure) (.error failure)
  | report {r r' : Report} (h : r.Grows c c' r') : OutcomeGrows c c' (.ok r) (.ok r')

namespace OutcomeGrows

theorem refl (c c' : ExperimentConfig) (outcome : Except Failure Report) :
    OutcomeGrows c c' outcome outcome := by
  cases outcome with
  | error failure => exact .failure failure
  | ok r => exact .report ⟨rfl, rfl, rfl, .refl _ _, .refl _ _⟩

theorem ofAudit {σ : Type} {validator : String} {extra : Finding → Prop} {a a' : Audit σ Unit}
    (hfindings : Gains extra a.findings a'.findings) (hresult : a'.result = a.result)
    (hextra : ∀ f, extra f →
      (∃ message, f = .warning message ∧ NewWarning c c' validator message) ∨
        ∃ message, f = .error message ∧ NewError c c' validator message) :
    OutcomeGrows c c' (Report.ofAudit validator a) (Report.ofAudit validator a') := by
  have hinfo : ∀ f message, extra f → f.info? = some message → False := by
    intro f message hf hm
    rcases hextra f hf with ⟨own, rfl, -⟩ | ⟨own, rfl, -⟩ <;> cases hm
  have hwarning : ∀ f message, extra f → f.warning? = some message →
      NewWarning c c' validator message := by
    intro f message hf hm
    rcases hextra f hf with ⟨own, rfl, hnew⟩ | ⟨own, rfl, -⟩ <;> cases hm
    exact hnew
  have herror : ∀ f message, extra f → f.error? = some message →
      NewError c c' validator message := by
    intro f message hf hm
    rcases hextra f hf with ⟨own, rfl, -⟩ | ⟨own, rfl, hnew⟩ <;> cases hm
    exact hnew
  unfold Report.ofAudit
  rw [hresult]
  cases a.result with
  | error failure => exact .failure failure
  | ok u =>
    refine .report ⟨rfl, rfl, ?_, hfindings.filterMap hwarning, hfindings.filterMap herror⟩
    exact (hfindings.filterMap hinfo).eq_of_forall_not fun _ => id

end OutcomeGrows

/-- **What was required is still required**, in the same order. -/
theorem required_sublist (h : c.AuditsMore c') : (required c).Sublist (required c') := by
  refine List.monotone_filter_right Kind.all fun kind hk => ?_
  cases kind with
  | standard => rfl
  | stdout => rfl
  | reconnect => rwa [Kind.isRequired, h.reconnect]
  | restart => rwa [Kind.isRequired, h.freezeRestart]
  | recoverState => rwa [Kind.isRequired, h.recoverState]
  | streamingServer => exact h.streaming hk
  | throttle =>
    -- without rates the first description does not require it
    rcases h.throttleValues with heq | hnil
    · rwa [Kind.isRequired, heq]
    · rw [Kind.isRequired, hnil] at hk
      cases hk
  | appThrottle =>
    simp only [Kind.isRequired, ExperimentConfig.usesAppThrottle,
      ExperimentConfig.runsPlatformTestingApp, Bool.and_eq_true] at hk ⊢
    exact ⟨h.useThrottle hk.1, h.appJar ▸ hk.2⟩
  | lifecycle => exact h.lifecycle hk
  | gossipCompensation => exact h.gossipCompensation hk
  | migration => exact h.migration hk
  | hapiClient => exact h.hapiClient hk
  | services => exact h.services hk

theorem policy_eq (h : c.AuditsMore c') : ExceptionPolicy.ofConfig c' = .ofConfig c := by
  unfold ExceptionPolicy.ofConfig
  rw [h.reconnect, h.freezeRestart, h.recoverState]

theorem appRates_eq (h : c.AuditsMore c') (hu : c.usesAppThrottle = true) (wording : Wording) :
    c'.appRates wording = c.appRates wording := by
  have hu' : c'.usesAppThrottle = true := by
    have hk := (mem_required c .appThrottle).2 hu
    exact (mem_required c' .appThrottle).1 ((required_sublist h).subset hk)
  unfold ExperimentConfig.appRates
  -- the rates would change if only the second description used them
  rw [if_pos hu, if_pos hu', h.appConfig]

/-- A required validator is the same as before, unless it is told to look for more. -/
theorem create_eq (h : c.AuditsMore c') (hk : kind ∈ required c)
    (hfinish : kind = .standard → c'.expectFinish = c.expectFinish)
    (hrecover : kind = .streamingServer → c'.recoverEventStream = c.recoverEventStream)
    (source : Source) : Validator.create kind source c' = Validator.create kind source c := by
  rw [mem_required] at hk
  cases kind with
  | standard =>
    unfold Validator.create
    rw [hfinish rfl, policy_eq h]
  | reconnect =>
    unfold Validator.create
    rw [h.reconnect, h.savedStateStartRound]
  | streamingServer =>
    unfold Validator.create
    rw [hrecover rfl]
  | throttle =>
    rcases h.throttleValues with heq | hnil
    · unfold Validator.create
      rw [heq]
    · rw [Kind.isRequired, hnil] at hk
      cases hk
  | appThrottle =>
    unfold Validator.create Validator.ofAppRates
    rw [appRates_eq h hk source.wording]
  | _ => rfl

/-- **What a required validator came to it still comes to**, unless it is told to look for more. -/
theorem outcome_eq (h : c.AuditsMore c') (hk : kind ∈ required c)
    (hfinish : kind = .standard → c'.expectFinish = c.expectFinish)
    (hrecover : kind = .streamingServer → c'.recoverEventStream = c.recoverEventStream)
    (source : Source) : outcome source c' kind = outcome source c kind := by
  unfold outcome
  rw [create_eq h hk hfinish hrecover source]

theorem grows_standard (h : c.AuditsMore c') (hoff : c.expectFinish = false)
    (hon : c'.expectFinish = true) (source : Source) :
    OutcomeGrows c c' (outcome source c .standard) (outcome source c' .standard) := by
  unfold outcome Validator.create
  rw [policy_eq h, hoff, hon]
  cases source.nodes with
  | error failure => exact .failure failure
  | ok nodes =>
    have hgains := gainsTo_auditStandard Kind.standard.name (.ofConfig c) nodes
    refine .ofAudit hgains.findings hgains.result ?_
    rintro _ ⟨node, rfl⟩
    exact .inl ⟨_, rfl, rfl, hoff, hon, node, rfl⟩

theorem grows_streamingServer (hoff : c.recoverEventStream = false)
    (hon : c'.recoverEventStream = true) (source : Source) :
    OutcomeGrows c c' (outcome source c .streamingServer)
      (outcome source c' .streamingServer) := by
  unfold outcome Validator.create
  rw [hoff, hon]
  cases source.streams with
  | error failure => exact .failure failure
  | ok streams =>
    have hgains := gainsTo_streams streams
    refine .ofAudit hgains.findings hgains.result ?_
    rintro _ ⟨node, rfl⟩
    exact .inr ⟨_, rfl, rfl, hoff, hon, node, rfl⟩

theorem turned_on {b b' : Bool} (h : b = true → b' = true) (hne : b' ≠ b) :
    b = false ∧ b' = true := by
  cases b with
  | false => exact ⟨rfl, eq_true_of_ne_false hne⟩
  | true => exact absurd (h rfl) hne

/-- **What a required validator came to has at most grown.** -/
theorem grows_outcome (h : c.AuditsMore c') (hk : kind ∈ required c) (source : Source) :
    OutcomeGrows c c' (outcome source c kind) (outcome source c' kind) := by
  by_cases hfinish : kind = .standard → c'.expectFinish = c.expectFinish
  · by_cases hrecover : kind = .streamingServer → c'.recoverEventStream = c.recoverEventStream
    · rw [outcome_eq h hk hfinish hrecover source]
      exact .refl c c' _
    · obtain ⟨rfl, hne⟩ := Classical.not_imp.1 hrecover
      obtain ⟨hoff, hon⟩ := turned_on h.recoverEventStream hne
      exact grows_streamingServer hoff hon source
  · obtain ⟨rfl, hne⟩ := Classical.not_imp.1 hfinish
    obtain ⟨hoff, hon⟩ := turned_on h.expectFinish hne
    exact grows_standard h hoff hon source

/-! ### The verdict -/

/-- How bad a verdict is. -/
def Verdict.severity : Verdict → Nat
  | passed => 0
  | passedWithWarnings => 1
  | failed => 2

/-- **The verdict follows the counts.** An experiment with no fewer failures, errors and warnings
has no better verdict. -/
theorem severity_le_of_le {source' : Source}
    (hf : (runAll source c).failures.length ≤ (runAll source' c').failures.length)
    (he : (runAll source c).errorCount ≤ (runAll source' c').errorCount)
    (hw : (runAll source c).warningCount ≤ (runAll source' c').warningCount) :
    (runAll source c).verdict.severity ≤ (runAll source' c').verdict.severity := by
  rw [verdict_runAll, verdict_runAll]
  simp only [ne_eq, ← List.length_pos_iff]
  split_ifs <;> simp only [Verdict.severity] <;> omega

theorem sublist_flatMap {α : Type} (field : Report → List α) {rs rs' : List Report}
    (hf : ∀ r r', r.Grows c c' r' → (field r).Sublist (field r'))
    (h : List.SublistForall₂ (Report.Grows c c') rs rs') :
    (rs.flatMap field).Sublist (rs'.flatMap field) := by
  induction h with
  | nil => exact List.nil_sublist _
  | cons hr _ ih => exact (hf _ _ hr).append ih
  | cons_right _ ih => exact ih.trans (List.sublist_append_right _ _)

theorem sublistForall₂_filterMap {kinds kinds' : List Kind} (hs : kinds.Sublist kinds')
    (h : ∀ kind ∈ kinds, OutcomeGrows c c' (outcome source c kind) (outcome source c' kind)) :
    List.SublistForall₂ (Report.Grows c c')
      (kinds.filterMap fun kind => (outcome source c kind).toOption)
      (kinds'.filterMap fun kind => (outcome source c' kind).toOption) := by
  induction hs with
  | slnil => exact .nil
  | cons kind _ ih =>
    rw [List.filterMap_cons]
    cases outcome source c' kind with
    | error failure => exact ih h
    | ok r => exact .cons_right (ih h)
  | cons_cons kind _ ih =>
    obtain ⟨hkind, hkinds⟩ := List.forall_mem_cons.1 h
    rw [List.filterMap_cons, List.filterMap_cons]
    generalize outcome source c kind = first, outcome source c' kind = second at hkind
    cases hkind with
    | failure failure => exact ih hkinds
    | report hr => exact .cons hr (ih hkinds)

/-- What could not run before still cannot, for the same reason. -/
theorem failures_sublist (h : c.AuditsMore c') (source : Source) :
    (runAll source c).failures.Sublist (runAll source c').failures := by
  have hsame : ∀ kind ∈ required c,
      failure? (outcome source c kind) = failure? (outcome source c' kind) := by
    intro kind hk
    have hg := grows_outcome h hk source
    generalize outcome source c kind = first, outcome source c' kind = second at hg
    cases hg with
    | failure failure => rfl
    | report hr => rfl
  have hkept : (required c).filterMap
        (fun kind => (failure? (outcome source c kind)).map (kind.name, ·)) =
      (required c).filterMap
        (fun kind => (failure? (outcome source c' kind)).map (kind.name, ·)) :=
    List.filterMap_congr fun kind hk => by rw [hsame kind hk]
  rw [failures_runAll_eq, failures_runAll_eq, hkept]
  exact (required_sublist h).filterMap _

/-- **Auditing more never improves the verdict.** Let a description ask for more than another, with
all that was done to the nodes the same. Then the validators required before are required in the
same order. Each of them comes to what it came to, except that the check of every run may warn of
nodes on which the test application did not finish, if that is newly expected, and the check of
event streams may complain of nodes that did not compare their recovered events, if these are newly
to be compared. No report and no failure is lost, and the verdict is at least as severe. -/
theorem auditing_more (source : Source) (h : c.AuditsMore c') :
    (required c).Sublist (required c') ∧
      (∀ kind ∈ required c,
        OutcomeGrows c c' (outcome source c kind) (outcome source c' kind) ∧
          ((kind = .standard → c'.expectFinish = c.expectFinish) →
            (kind = .streamingServer → c'.recoverEventStream = c.recoverEventStream) →
              outcome source c' kind = outcome source c kind)) ∧
      List.SublistForall₂ (Report.Grows c c') (runAll source c).reports
        (runAll source c').reports ∧
      (runAll source c).failures.Sublist (runAll source c').failures ∧
      (runAll source c).verdict.severity ≤ (runAll source c').verdict.severity := by
  have hreports : List.SublistForall₂ (Report.Grows c c') (runAll source c).reports
      (runAll source c').reports := by
    rw [reports_runAll, reports_runAll]
    exact sublistForall₂_filterMap (required_sublist h) fun kind hk => grows_outcome h hk source
  have hfailures := failures_sublist h source
  have herrors := sublist_flatMap Report.errors (fun _ _ hr => hr.errors.sublist) hreports
  have hwarnings := sublist_flatMap Report.warnings (fun _ _ hr => hr.warnings.sublist) hreports
  refine ⟨required_sublist h, fun kind hk => ⟨grows_outcome h hk source, ?_⟩, hreports,
    hfailures, ?_⟩
  · intro hfinish hrecover
    exact outcome_eq h hk hfinish hrecover source
  · exact severity_le_of_le hfailures.length_le herrors.length_le hwarnings.length_le

/-- The artifacts of a node that logged only its start, and did not recover the events it wrote. -/
def briefSource : Source where
  nodeCount := 1
  nodes := .ok [{
    log := some (.ofText .platform "2024-03-01 10:00:00 started")
    metrics := some ⟨[]⟩ }]
  streams := .ok [some (.ofLists "f1" ["h1"] [] none)]
  maps := .ok []
  wording := .silent

/-- An experiment of which the event streams are compared. -/
def streamedConfig : ExperimentConfig := { streaming := true }

/-- The same experiment with more expected of the nodes. -/
def demandingConfig : ExperimentConfig :=
  { streaming := true, recoverEventStream := true, expectFinish := true }

theorem auditing_more_briefSource :
    streamedConfig.AuditsMore demandingConfig ∧
      (runAll briefSource streamedConfig).verdict = .passed ∧
      (runAll briefSource demandingConfig).verdict = .failed ∧
      List.SublistForall₂ (Report.Grows streamedConfig demandingConfig)
        (runAll briefSource streamedConfig).reports (runAll briefSource demandingConfig).reports ∧
      (runAll briefSource streamedConfig).verdict.severity ≤
        (runAll briefSource demandingConfig).verdict.severity := by
  have h : streamedConfig.AuditsMore demandingConfig := by
    constructor <;> simp [streamedConfig, demandingConfig]
  have hpassed : (runAll briefSource streamedConfig).verdict = .passed := by decide +kernel
  have hfailed : (runAll briefSource demandingConfig).verdict = .failed := by decide +kernel
  obtain ⟨-, -, hreports, -, hverdict⟩ := auditing_more briefSource h
  exact ⟨h, hpassed, hfailed, hreports, hverdict⟩

end RunAudit
