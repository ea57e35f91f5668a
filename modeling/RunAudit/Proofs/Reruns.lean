import Mathlib.Data.List.Basic
import Mathlib.Logic.Function.Iterate
import RunAudit.Proofs.Draining
import RunAudit.Proofs.Isolation

/-!
# Running a validator again

A run leaves its validator with cursors that have been moved, and the next run starts from there. A
run that is completed leaves every cursor that it reads at the end of its log, where nothing moves it
any more. What a check says of what such a cursor has gathered it says again, word for word; what it
says of the entries that it moves over it does not say twice.

* `Audit.Repeats`: a check that, once completed, comes to the same on what it leaves behind.
* `repeats_finish`, `Repeats.each`: reading to the end is such a check, and so is one of each node.
* `audit_afterwards`: the validators of which the check repeats itself.
* `Compensation.told`, `reportOf`: what a run of the check for compensations tells of, and its report.
* `audit_of_spent`: that check over logs that have been read to their ends.
* `told_sublist`: all runs together tell of no compensation twice.
* `runs_repeat`: what runs after a completed one report.
-/

namespace RunAudit

open Check Log

/-! ### Reading to the end -/

namespace Log.Cursor

variable {c c' : Cursor} {wanted : Marker → Bool}

theorem exhausted_of_next_none (h : c.next = (.ok none, c')) : c'.exhausted = true := by
  unfold next at h
  split_ifs at h with hx
  · cases h
    exact hx
  · have hcomplete : ∀ (d : Cursor) (e : Entry), d.complete e ≠ (.ok none, c') := by
      intro d e hd
      unfold complete at hd
      split at hd <;> cases hd
    split at h
    · exact absurd h (hcomplete _ _)
    · split at h
      · cases h
        rfl
      · cases h
      · exact absurd h (hcomplete _ _)

theorem collect_of_exhausted (h : c.exhausted = true) : c.collect wanted = ⟨[], c, none⟩ := by
  have hn : c.next = (.ok none, c) := by unfold next; rw [if_pos h]
  rw [collect_eq, hn]

/-- Reading to the end, if nothing fails, leaves a cursor that knows the log to be over. -/
theorem exhausted_collect (h : (c.collect wanted).failure = none) :
    (c.collect wanted).cursor.exhausted = true := by
  fun_induction Cursor.collect wanted c with
  | case1 c failure c' hn => cases h
  | case2 c c' hn => exact exhausted_of_next_none hn
  | case3 c e c' hn _ later hw =>
    rename_i ih
    exact ih h
  | case4 c e c' hn _ later hw =>
    rename_i ih
    exact ih h

theorem found_collect_never (c : Cursor) : (c.collect fun _ => false).found = [] := by
  fun_induction Cursor.collect (fun _ => false) c with
  | case1 c failure c' hn => rfl
  | case2 c c' hn => rfl
  | case3 c e c' hn _ later hw => cases hw
  | case4 c e c' hn _ later hw =>
    rename_i ih
    exact ih

end Log.Cursor

/-! ### Checks that repeat themselves -/

namespace Audit

variable {σ τ α β : Type} {first : Audit σ α} {check : σ → Audit σ α}

/-- Concluding a check leaves its inputs alone. -/
@[simp] theorem inputs_conclude (more : σ → α → List Finding) :
    (first.conclude more).inputs = first.inputs := by
  cases h : first.result with
  | error failure => unfold conclude andThen; rw [h]
  | ok a => rw [conclude_of_ok h]; rfl

@[simp] theorem findings_conclude_nil :
    (first.conclude fun _ _ => []).findings = first.findings := by
  cases h : first.result with
  | error failure => unfold conclude andThen; rw [h]
  | ok a => rw [conclude_of_ok h, findings_done, List.append_nil]

/-- **A check that repeats itself**: completed once, it comes to the same on what it leaves
behind. -/
def Repeats (check : σ → Audit σ α) : Prop :=
  ∀ inputs a, (check inputs).result = .ok a → check (check inputs).inputs = check inputs

theorem Repeats.conclude (h : Repeats check) (more : σ → α → List Finding) :
    Repeats fun inputs => (check inputs).conclude more := by
  intro inputs u hu
  obtain ⟨a, ha⟩ := (result_conclude more).1 hu
  show (check ((check inputs).conclude more).inputs).conclude more = _
  rw [inputs_conclude, h inputs a ha]

/-- A check of every item repeats itself if its part does on each. -/
theorem Repeats.eachFrom {check : Nat → σ → Audit σ α} (h : ∀ place, Repeats (check place))
    (place : Nat) : Repeats (eachFrom check place) := by
  intro items
  induction items generalizing place with
  | nil => exact fun _ _ => rfl
  | cons item items ih =>
    intro as has
    rw [Audit.eachFrom] at has
    cases hf : (check place item).result with
    | error failure => simp [hf] at has
    | ok a =>
      cases hl : (Audit.eachFrom check (place + 1) items).result with
      | error failure => simp [hf, hl, Except.map] at has
      | ok later =>
        have hitem := h place item a hf
        have hitems := ih (place + 1) later hl
        have hinputs : (Audit.eachFrom check place (item :: items)).inputs =
            (check place item).inputs :: (Audit.eachFrom check (place + 1) items).inputs := by
          rw [Audit.eachFrom]
          simp only [hf]
        rw [hinputs, Audit.eachFrom, hitem, hitems, Audit.eachFrom]
        simp only [hf]

theorem Repeats.each {check : Nat → σ → Audit σ α} (h : ∀ place, Repeats (check place)) :
    Repeats (each check) := Repeats.eachFrom h 0

/-- What a check of every item makes of one of them, if it comes to it at all. -/
theorem getElem?_inputs_eachFrom (check : Nat → σ → Audit σ α) (place : Nat) (items : List σ)
    (i : Nat) :
    (Audit.eachFrom check place items).inputs[i]? = items[i]? ∨
      (Audit.eachFrom check place items).inputs[i]? =
        items[i]?.map fun item => (check (place + i) item).inputs := by
  induction items generalizing place i with
  | nil => exact .inl rfl
  | cons item items ih =>
    rw [Audit.eachFrom]
    cases hf : (check place item).result with
    | error failure =>
      cases i with
      | zero => exact .inr rfl
      | succ i => exact .inl rfl
    | ok a =>
      cases i with
      | zero => exact .inr rfl
      | succ i =>
        have hi := ih (place + 1) i
        rw [Nat.add_right_comm] at hi
        exact hi

theorem length_inputs_eachFrom (check : Nat → σ → Audit σ α) (place : Nat) (items : List σ) :
    (Audit.eachFrom check place items).inputs.length = items.length := by
  induction items generalizing place with
  | nil => rfl
  | cons item items ih =>
    rw [Audit.eachFrom]
    cases (check place item).result with
    | error failure => rfl
    | ok a => exact congrArg (· + 1) (ih (place + 1))

end Audit

/-- **Reading to the end repeats itself.** -/
theorem repeats_finish : Audit.Repeats finish := by
  intro c es h
  unfold finish sweep at h ⊢
  cases hf : (c.collect fun _ => false).failure with
  | some failure => simp [hf] at h
  | none =>
    have hx := Cursor.exhausted_collect hf
    simp only [hf, Cursor.collect_of_exhausted hx, Cursor.found_collect_never]

theorem repeats_auditLog {α : Type} {check : Nat → Cursor → Audit Cursor α}
    (h : ∀ place, Audit.Repeats (check place)) (validator : String) (missing : α) (place : Nat) :
    Audit.Repeats (Node.auditLog validator missing check place) := by
  intro n a ha
  unfold Node.auditLog at ha
  cases hl : n.log with
  | none =>
    have hn : n.auditLog validator missing check place =
        .done (logMissing validator place) n missing := by unfold Node.auditLog; rw [hl]
    rw [hn, Audit.inputs_done, hn]
  | some c =>
    rw [hl] at ha
    have hc := h place c a ha
    have hn : n.auditLog validator missing check place =
        (check place c).within fun c => { n with log := some c } := by unfold Node.auditLog; rw [hl]
    rw [hn]
    exact congrArg (Audit.within · fun c => { n with log := some c }) hc

theorem repeats_auditNodeStdout (place : Nat) :
    Audit.Repeats (Health.auditNodeStdout place) := by
  intro n u hu
  unfold Health.auditNodeStdout at hu
  cases hs : n.stdout with
  | none =>
    have hn : Health.auditNodeStdout place n = .done [] n () := by
      unfold Health.auditNodeStdout
      rw [hs]
    rw [hn, Audit.inputs_done, hn]
  | some c =>
    rw [hs] at hu
    have hc := repeats_finish.conclude (fun c _ =>
      exceptionFindings place "stdout" (judgePlain c.lastTimestamp) c.exceptions) c u hu
    have hn : Health.auditNodeStdout place n = ((finish c).conclude fun c _ =>
        exceptionFindings place "stdout" (judgePlain c.lastTimestamp) c.exceptions).within
          fun c => { n with stdout := some c } := by
      unfold Health.auditNodeStdout
      rw [hs]
    rw [hn]
    exact congrArg (Audit.within · fun c => { n with stdout := some c }) hc

namespace Validator

variable {v : Validator}

/-- A run does not make another kind of validator. -/
@[simp] theorem kind_afterwards (v : Validator) : v.afterwards.kind = v.kind := by
  cases v <;> rfl

/-- The kinds of validators that come to the same when they run again. -/
def repeating : List Kind :=
  [.stdout, .services, .streamingServer, .throttle, .appThrottle, .lifecycle]

/-- **A validator that repeats itself**: after a completed run its check comes to the same. -/
theorem audit_afterwards (hk : v.kind ∈ repeating) (h : v.audit.result = .ok ()) :
    v.afterwards.audit = v.audit := by
  cases v with
  | stdout nodes =>
    have hrepeat := (Audit.Repeats.each repeats_auditNodeStdout).conclude (fun _ _ => []) nodes () h
    exact congrArg (Audit.within · stdout) hrepeat
  | services nodes =>
    have hlog : ∀ place, Audit.Repeats (Health.auditServicesLog place) :=
      fun place => repeats_finish.conclude _
    have hrepeat := (Audit.Repeats.each fun place => repeats_auditLog hlog
      Kind.services.name () place).conclude (fun _ _ => []) nodes () h
    exact congrArg (Audit.within · services) hrepeat
  | streamingServer streams recovered =>
    -- the lists of hashes and files are left as they were
    have hinputs : (Streams.audit recovered streams).inputs = streams := by
      unfold Streams.audit
      split_ifs <;> rfl
    have hv : (streamingServer streams recovered).afterwards = streamingServer streams recovered :=
      congrArg (streamingServer · recovered) hinputs
    rw [hv]
  | throttle nodes expected => rfl
  | appThrottle nodes expected => rfl
  | lifecycle maps => rfl
  | _ => simp [kind, repeating] at hk

theorem report_iterate (hk : v.kind ∈ repeating) {r : Report} (h : v.report = .ok r) (n : Nat) :
    (afterwards^[n] v).report = .ok r := by
  induction n generalizing v with
  | zero => exact h
  | succ n ih =>
    have haudit := audit_afterwards hk (of_ofAudit h).1
    rw [Function.iterate_succ_apply]
    refine ih (by rwa [kind_afterwards]) ?_
    unfold report name at h ⊢
    rw [haudit, kind_afterwards]
    exact h

end Validator

/-! ### The check for compensations -/

namespace Check.Compensation

variable {nodes : List Node} {n : Node} {place : Nat}

/-- The check of one node. -/
def auditNode : Nat → Node → Audit Node Unit :=
  Node.auditLog Kind.gossipCompensation.name () auditLog

/-- The nodes as a run of the check leaves them, completed or not. -/
def rest (nodes : List Node) : List Node := (audit Kind.gossipCompensation.name nodes).inputs

theorem iterate_afterwards (nodes : List Node) (i : Nat) :
    Validator.afterwards^[i] (.gossipCompensation nodes) =
      .gossipCompensation (rest^[i] nodes) := by
  induction i generalizing nodes with
  | zero => rfl
  | succ i ih =>
    rw [Function.iterate_succ_apply, Function.iterate_succ_apply]
    exact ih (rest nodes)

/-- The cursor in the log at a place. -/
def logAt (nodes : List Node) (place : Nat) : Option Cursor := nodes[place]?.bind (·.log)

/-- A cursor as a run of the check leaves it. -/
def passed (c : Cursor) : Cursor := (c.collect isCompensation).cursor

/-- The compensations that a run of the check tells of at a place: those that it moves over, if it is
completed, and none if it fails. -/
def told (nodes : List Node) (place : Nat) : List Entry :=
  match (audit Kind.gossipCompensation.name nodes).result with
  | .error _ => []
  | .ok _ => ((logAt nodes place).map fun c => (c.collect isCompensation).found).getD []

/-- The report that a log is missing of each node without one, and on each other node of some
compensations. -/
def reportOf (nodes : List Node) (told : Nat → List Entry) : Report :=
  { ({ validator := Kind.gossipCompensation.name } : Report).extend
      (nodes.mapIdx fun i n =>
        if n.log.isNone then logMissing Kind.gossipCompensation.name i
        else (told i).flatMap (findings i)).flatten with
    validated := true }

/-- The errors that say that logs are missing. -/
def missingLogs (nodes : List Node) : List String :=
  (nodes.mapIdx fun i n =>
    if n.log.isNone then [s!"Node {i} log is missing or unreadable"] else []).flatten

/-- What the check of one node finds, and how it leaves it. -/
theorem auditNode_eq (place : Nat) (n : Node) :
    (auditNode place n).findings = (match n.log with
        | none => logMissing Kind.gossipCompensation.name place
        | some c => (c.collect isCompensation).found.flatMap (findings place)) ∧
      (auditNode place n).inputs.log = n.log.map passed := by
  unfold auditNode Node.auditLog
  cases hl : n.log with
  | none => exact ⟨rfl, hl⟩
  | some c =>
    refine ⟨?_, ?_⟩
    · show (auditLog place c).findings = _
      exact Audit.findings_conclude_nil
    · show some (auditLog place c).inputs = _
      exact congrArg some (Audit.inputs_conclude _)

/-- The check of one node is completed only if nothing in its log fails. -/
theorem failure_of_ok {u : Unit} (h : (auditNode place n).result = .ok u) {c : Cursor}
    (hl : n.log = some c) : (c.collect isCompensation).failure = none := by
  unfold auditNode Node.auditLog at h
  rw [hl] at h
  have hlog : (auditLog place c).result = .ok () := h
  obtain ⟨found, hsweep⟩ := (Audit.result_conclude _).1 hlog
  cases hf : (c.collect isCompensation).failure with
  | none => rfl
  | some failure => simp [sweep, hf] at hsweep

theorem of_logAt {c : Cursor} (h : logAt nodes place = some c) :
    ∃ n, nodes[place]? = some n ∧ n.log = some c := Option.bind_eq_some_iff.1 h

/-- A run leaves the log at a place as it was or moves over it. -/
theorem logAt_rest (nodes : List Node) (place : Nat) :
    logAt (rest nodes) place = logAt nodes place ∨
      logAt (rest nodes) place = (logAt nodes place).map passed := by
  have hinputs : rest nodes = (Audit.eachFrom auditNode 0 nodes).inputs := Audit.inputs_conclude _
  unfold logAt
  rw [hinputs]
  rcases Audit.getElem?_inputs_eachFrom auditNode 0 nodes place with h | h
  · exact .inl (by rw [h])
  · refine .inr ?_
    rw [h]
    cases nodes[place]? with
    | none => rfl
    | some n => exact (auditNode_eq _ n).2

/-- A completed run moves over every log. -/
theorem rest_of_ok (h : (audit Kind.gossipCompensation.name nodes).result = .ok ()) :
    (∀ i n, nodes[i]? = some n → ∃ u, (auditNode i n).result = .ok u) ∧
      (audit Kind.gossipCompensation.name nodes).findings =
        (nodes.mapIdx fun i n => (auditNode i n).findings).flatten ∧
      ∀ i, logAt (rest nodes) i = (logAt nodes i).map passed := by
  obtain ⟨as, has⟩ := (Audit.result_conclude _).1 h
  have hparts := Audit.of_eachFrom has
  simp only [Nat.zero_add] at hparts
  obtain ⟨hfindings, hinputs⟩ := hparts
  refine ⟨fun i n hn => (Audit.of_each has hn).1, ?_, fun i => ?_⟩
  · exact Audit.findings_conclude_nil.trans hfindings
  · have hrest : rest nodes = nodes.mapIdx fun i n => (auditNode i n).inputs :=
      (Audit.inputs_conclude _).trans hinputs
    unfold logAt
    rw [hrest, List.getElem?_mapIdx]
    cases nodes[i]? with
    | none => rfl
    | some n => exact (auditNode_eq i n).2

/-- **The report of a completed run** says which logs are missing and what the run tells of. -/
theorem report_eq {r : Report} (h : (Validator.gossipCompensation nodes).report = .ok r) :
    r = reportOf nodes (told nodes) := by
  have hok : (audit Kind.gossipCompensation.name nodes).result = .ok () := (of_ofAudit h).1
  obtain ⟨-, hfindings, -⟩ := rest_of_ok hok
  have hr : r = { ({ validator := Kind.gossipCompensation.name } : Report).extend
      (audit Kind.gossipCompensation.name nodes).findings with validated := true } :=
    eq_of_ofAudit (a := audit Kind.gossipCompensation.name nodes) h
  have hblocks : (nodes.mapIdx fun i n => (auditNode i n).findings) = nodes.mapIdx fun i n =>
      if n.log.isNone then logMissing Kind.gossipCompensation.name i
      else (told nodes i).flatMap (findings i) := by
    refine List.mapIdx_eq_mapIdx_iff.2 fun i hi => ?_
    have hlog : logAt nodes i = nodes[i].log := by
      unfold logAt
      rw [List.getElem?_eq_getElem hi]
      rfl
    rw [(auditNode_eq i nodes[i]).1]
    unfold told
    rw [hok, hlog]
    cases nodes[i].log <;> rfl
  rw [hr, hfindings, hblocks]
  rfl

/-! ### Runs after a completed one -/

/-- Nodes of which each log has been read to its end. -/
def Spent (nodes : List Node) : Prop := ∀ i c, logAt nodes i = some c → c.exhausted = true

theorem Spent.of_mem (h : Spent nodes) (hn : n ∈ nodes) :
    ∀ c, n.log = some c → c.exhausted = true := by
  intro c hc
  obtain ⟨i, hi⟩ := List.mem_iff_getElem?.1 hn
  refine h i c ?_
  unfold logAt
  rw [hi]
  exact hc

/-- A completed run leaves nothing to read. -/
theorem spent_rest (h : (audit Kind.gossipCompensation.name nodes).result = .ok ()) :
    Spent (rest nodes) := by
  obtain ⟨hparts, -, hlogs⟩ := rest_of_ok h
  intro i c hc
  rw [hlogs i] at hc
  obtain ⟨c₀, hc₀, rfl⟩ := Option.map_eq_some_iff.1 hc
  obtain ⟨n, hn, hl⟩ := of_logAt hc₀
  obtain ⟨u, hu⟩ := hparts i n hn
  exact Cursor.exhausted_collect (failure_of_ok hu hl)

/-- The check of a node of which the log has been read to its end. -/
theorem auditNode_of_exhausted (h : ∀ c, n.log = some c → c.exhausted = true) (place : Nat) :
    auditNode place n = .done
      (if n.log.isNone then logMissing Kind.gossipCompensation.name place else []) n () := by
  unfold auditNode Node.auditLog
  cases hl : n.log with
  | none => rfl
  | some c =>
    have hsweep : sweep isCompensation (List.flatMap (findings place)) c = .done [] c [] := by
      unfold sweep
      rw [Cursor.collect_of_exhausted (h c hl)]
      rfl
    have hnode : ({ n with log := some c } : Node) = n := by
      rw [← hl]
    show (auditLog place c).within (fun c => { n with log := some c }) = _
    unfold auditLog
    rw [hsweep, Audit.conclude_of_ok rfl]
    exact congrArg (Audit.done [] · ()) hnode

/-- **Over logs that have been read to their ends** the check says which logs are missing and leaves
everything as it is. -/
theorem audit_of_spent (h : Spent nodes) :
    audit Kind.gossipCompensation.name nodes = .done (nodes.mapIdx fun i n =>
      if n.log.isNone then logMissing Kind.gossipCompensation.name i else []).flatten nodes () := by
  have hnode : ∀ place, ∀ n ∈ nodes, auditNode place n = .done
      (if n.log.isNone then logMissing Kind.gossipCompensation.name place else []) n () :=
    fun place n hn => auditNode_of_exhausted (h.of_mem hn) place
  have hmem : ∀ place, ∀ n ∈ nodes, (auditNode place n).result = .ok () :=
    fun place n hn => congrArg Audit.result (hnode place n hn)
  have hfindings : (nodes.mapIdx fun i n => (auditNode i n).findings) = nodes.mapIdx fun i n =>
      if n.log.isNone then logMissing Kind.gossipCompensation.name i else [] :=
    List.mapIdx_eq_mapIdx_iff.2 fun i hi =>
      congrArg Audit.findings (hnode i _ (List.getElem_mem hi))
  have hinputs : (nodes.mapIdx fun i n => (auditNode i n).inputs) = nodes := by
    refine List.ext_getElem (List.length_mapIdx ..) fun i hi hi' => ?_
    rw [List.getElem_mapIdx]
    exact congrArg Audit.inputs (hnode i _ (List.getElem_mem hi'))
  have heach := Audit.conclude_each hmem fun _ _ => []
  rw [hfindings, hinputs, List.append_nil] at heach
  exact heach

theorem rest_of_spent (h : Spent nodes) (i : Nat) : rest^[i] nodes = nodes := by
  refine Function.iterate_fixed ?_ i
  unfold rest
  rw [audit_of_spent h]
  rfl

theorem told_of_spent (h : Spent nodes) (place : Nat) : told nodes place = [] := by
  unfold told
  rw [audit_of_spent h, Audit.result_done]
  cases hc : logAt nodes place with
  | none => rfl
  | some c =>
    rw [Option.map_some, Cursor.collect_of_exhausted (h place c hc)]
    rfl

/-- Which logs are missing does not change. -/
theorem missingLogs_rest (nodes : List Node) : missingLogs (rest nodes) = missingLogs nodes := by
  have hmissing : ∀ ns : List Node, missingLogs ns = (ns.mapIdx fun i _ =>
      if (logAt ns i).isNone then [s!"Node {i} log is missing or unreadable"] else []).flatten := by
    intro ns
    unfold missingLogs logAt
    congr 1
    refine List.mapIdx_eq_mapIdx_iff.2 fun i hi => ?_
    rw [List.getElem?_eq_getElem hi]
    rfl
  have hlength : (rest nodes).length = nodes.length :=
    (congrArg List.length (Audit.inputs_conclude _)).trans
      (Audit.length_inputs_eachFrom auditNode 0 nodes)
  have hnone : ∀ i, (logAt (rest nodes) i).isNone = (logAt nodes i).isNone := by
    intro i
    rcases logAt_rest nodes i with h | h <;> rw [h]
    exact Option.isNone_map
  rw [hmissing, hmissing]
  congr 1
  refine List.ext_getElem (by simpa using hlength) fun i hi hi' => ?_
  rw [List.getElem_mapIdx, List.getElem_mapIdx, hnone]

theorem missingLogs_iterate (nodes : List Node) (i : Nat) :
    missingLogs (rest^[i] nodes) = missingLogs nodes := by
  induction i generalizing nodes with
  | zero => rfl
  | succ i ih => rw [Function.iterate_succ_apply, ih, missingLogs_rest]

/-- What is said of missing logs are errors. -/
theorem messages_missing (nodes : List Node) :
    let said := (nodes.mapIdx fun i n =>
      if n.log.isNone then logMissing Kind.gossipCompensation.name i else []).flatten
    said.filterMap Finding.info? = [] ∧ said.filterMap Finding.warning? = [] ∧
      said.filterMap Finding.error? = missingLogs nodes := by
  have hnone : ∀ field : Finding → Option String,
      (∀ i, (logMissing Kind.gossipCompensation.name i).filterMap field = []) →
      (nodes.mapIdx fun i n => (if n.log.isNone then
        logMissing Kind.gossipCompensation.name i else []).filterMap field).flatten = [] := by
    intro field hfield
    rw [List.flatten_eq_nil_iff]
    intro messages hmessages
    obtain ⟨i, hi, rfl⟩ := List.mem_mapIdx.1 hmessages
    split_ifs
    · exact hfield i
    · rfl
  simp only [filterMap_flatten_mapIdx]
  refine ⟨hnone _ fun _ => rfl, hnone _ fun _ => rfl, ?_⟩
  unfold missingLogs
  refine congrArg List.flatten (List.mapIdx_eq_mapIdx_iff.2 fun i hi => ?_)
  split_ifs <;> rfl

/-- **Over logs that have been read to their ends** the report names the missing logs and nothing
else. -/
theorem report_of_spent (h : Spent nodes) :
    (Validator.gossipCompensation nodes).report =
      .ok { validator := Kind.gossipCompensation.name, errors := missingLogs nodes,
            validated := true } := by
  obtain ⟨hinfos, hwarnings, herrors⟩ := messages_missing nodes
  show Report.ofAudit Kind.gossipCompensation.name (audit Kind.gossipCompensation.name nodes) = _
  rw [audit_of_spent h]
  unfold Report.ofAudit Report.extend
  rw [Audit.findings_done, hinfos, hwarnings, herrors]
  rfl

/-- **All runs together tell of no compensation twice**: what they tell of at a place is drawn from
the compensations of the log there, in their order. -/
theorem told_sublist {es : List Entry} {k : Nat} {c : Cursor} (hc : logAt nodes place = some c)
    (hf : c.Follows es k) (runs : Nat) :
    ((List.range runs).flatMap fun i => told (rest^[i] nodes) place).Sublist
      (es.filter fun e => isCompensation e.marker) := by
  induction runs generalizing nodes c k with
  | zero => exact List.nil_sublist _
  | succ runs ih =>
    have hcollect := Cursor.collect_cases isCompensation hf
    rw [List.range_succ_eq_map, List.flatMap_cons, List.flatMap_map]
    simp only [Function.iterate_zero_apply, Function.iterate_succ_apply]
    cases hresult : (audit Kind.gossipCompensation.name nodes).result with
    | error failure =>
      -- a run that fails tells of nothing, and the cursor is still at some place of the log
      have hnone : told nodes place = [] := by unfold told; rw [hresult]
      rw [hnone, List.nil_append]
      rcases logAt_rest nodes place with hrest | hrest
      · exact ih (hrest.trans hc) hf
      · rw [hc] at hrest
        rcases hcollect with ⟨-, -, -, -, hend, -⟩ | ⟨-, -, k', hplace⟩
        · exact ih hrest hend
        · exact ih hrest hplace
    | ok u =>
      have hspent := spent_rest hresult
      have hlater : ((List.range runs).flatMap fun i => told (rest^[i] (rest nodes)) place) = [] := by
        rw [List.flatMap_eq_nil_iff]
        intro i _
        rw [rest_of_spent hspent, told_of_spent hspent]
      obtain ⟨n, hn, hl⟩ := of_logAt hc
      obtain ⟨v, hv⟩ := (rest_of_ok hresult).1 place n hn
      have hfailure := failure_of_ok hv hl
      have hfound : told nodes place = (es.drop k).filter fun e => isCompensation e.marker := by
        unfold told
        rw [hresult, hc]
        rcases hcollect with ⟨-, -, -, hfound, -, -⟩ | ⟨hfailed, -, -⟩
        · exact hfound
        · rw [hfailure] at hfailed
          cases hfailed
      rw [hlater, List.append_nil, hfound]
      exact (List.drop_sublist k es).filter _

/-- **Every run after a completed one** reports the missing logs and nothing else. -/
theorem report_after {i j : Nat} {r : Report} (hij : i < j)
    (h : (Validator.gossipCompensation (rest^[i] nodes)).report = .ok r) :
    (Validator.gossipCompensation (rest^[j] nodes)).report =
      .ok { validator := Kind.gossipCompensation.name, errors := missingLogs nodes,
            validated := true } := by
  have hspent : Spent (rest (rest^[i] nodes)) := spent_rest (of_ofAudit h).1
  obtain ⟨d, rfl⟩ : ∃ d, j = d + (i + 1) := ⟨j - (i + 1), by omega⟩
  have hlater : rest^[d + (i + 1)] nodes = rest (rest^[i] nodes) := by
    rw [Function.iterate_add_apply, Function.iterate_succ_apply', rest_of_spent hspent]
  rw [hlater, report_of_spent hspent, missingLogs_rest, missingLogs_iterate]

end Check.Compensation

open Check.Compensation in
/-- **Running again after a completed run.** A validator of a kind that repeats itself gives the same
report in every later run. The validator for compensations reports the missing logs and nothing else
in every run after a completed one. What all its runs together tell of the compensations in a log is
drawn from those of the log, in their order, so that none is told of twice. -/
theorem runs_repeat :
    (∀ (v : Validator) (r : Report), v.kind ∈ Validator.repeating → v.report = .ok r →
      ∀ n, (Validator.afterwards^[n] v).report = .ok r) ∧
    ∀ nodes : List Node,
      let after := fun i => rest^[i] nodes
      (∀ i, Validator.afterwards^[i] (.gossipCompensation nodes) =
        .gossipCompensation (after i)) ∧
      (∀ i r, (Validator.gossipCompensation (after i)).report = .ok r →
        r = reportOf (after i) (told (after i)) ∧
          ∀ j, i < j → (Validator.gossipCompensation (after j)).report =
            .ok { validator := Kind.gossipCompensation.name, errors := missingLogs nodes,
                  validated := true }) ∧
      ∀ (place : Nat) (layout : Layout) (bytes : List UInt8) (script : List Call),
        logAt nodes place = some ((Cursor.ofBytes layout bytes).after script) →
        ∀ runs, ((List.range runs).flatMap fun i => told (after i) place).Sublist
          ((inspected (linesOf layout bytes)).filter fun e => isCompensation e.marker) := by
  refine ⟨fun v r hk hr n => Validator.report_iterate hk hr n, fun nodes =>
    ⟨iterate_afterwards nodes, fun i r hr => ⟨report_eq hr, fun j hij => report_after hij hr⟩, ?_⟩⟩
  intro place layout bytes script hlog runs
  obtain ⟨k, hf⟩ := Cursor.after_follows script (Cursor.follows_start (linesOf layout bytes))
  exact told_sublist hlog hf runs

/-- The log of a node that made up for stale events, wrote a line beyond decoding, and fell behind. -/
def fallenBehindLog : List UInt8 :=
  utf8 "2024-03-01 10:00:00 SYNC_STALE_COMPENSATION_SUCCESS synced\n2024-03-01 10:00:01 STARTUP up\n"
    ++ [255, 10] ++ utf8 "2024-03-01 10:00:02 SYNC_STALE_COMPENSATION_FAILURE behind"

/-- That node next to one without a log. -/
def fallenBehind : List Node := [{ log := some (.ofBytes .platform fallenBehindLog) }, {}]

/-- A node that raised an exception on its standard output. -/
def raising : List Node :=
  [{ stdout := some (.ofText .platform "2024-03-01 10:00:00 EXCEPTION lost\n\tat Main") }]

open Check.Compensation in
theorem runs_repeat_fallenBehind :
    (∀ n, (Validator.afterwards^[n] (.stdout raising)).report =
        .ok { validator := Kind.stdout.name, errors := ["Node 0 stdout has EXCEPTION: lost"],
              validated := true }) ∧
      (Validator.gossipCompensation fallenBehind).report = .error (.unreadable .undecodable) ∧
      (Validator.afterwards^[1] (.gossipCompensation fallenBehind)).report =
        .ok { validator := Kind.gossipCompensation.name,
              errors := ["Node 0 failed to compensate for stale events: behind",
                "Node 1 log is missing or unreadable"], validated := true } ∧
      (∀ j, 1 < j → (Validator.afterwards^[j] (.gossipCompensation fallenBehind)).report =
        .ok { validator := Kind.gossipCompensation.name,
              errors := ["Node 1 log is missing or unreadable"], validated := true }) ∧
      ∀ runs, ((List.range runs).flatMap fun i => told (rest^[i] fallenBehind) 0).Sublist
        ((inspected (linesOf .platform fallenBehindLog)).filter fun e =>
          isCompensation e.marker) := by
  obtain ⟨hrepeated, hruns⟩ := runs_repeat
  obtain ⟨hafter, hreports, hdrawn⟩ := hruns fallenBehind
  have hsecond : (Validator.gossipCompensation (rest^[1] fallenBehind)).report =
      .ok { validator := Kind.gossipCompensation.name,
            errors := ["Node 0 failed to compensate for stale events: behind",
              "Node 1 log is missing or unreadable"], validated := true } := by decide +kernel
  refine ⟨hrepeated (.stdout raising) _ (by decide) (by decide +kernel), by decide +kernel, ?_,
    fun j hj => ?_, hdrawn 0 .platform fallenBehindLog [] rfl⟩
  · rw [hafter 1]
    exact hsecond
  · rw [hafter j, (hreports 1 _ hsecond).2 j hj]
    rfl

end RunAudit
