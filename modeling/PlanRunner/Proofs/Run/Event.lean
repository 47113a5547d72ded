import PlanRunner.Proofs.Engine.Steps
import PlanRunner.Proofs.Run.Retry

/-!
# PlanRunner — the events of a run

What follows from a step of a run is spread over a dozen functions that call each other. Seen
from outside there are ten events: a question is put that belongs where the run stands, the run
ends before its time, it is answered directly, a plan is taken over, the execution goes on, the
evaluator is consulted, or there is a verdict, which the run ends with or which leads to another
attempt. An event says all that its step does: from which phase it starts, what is read off the
answer, what is logged and what the run and its surroundings are afterwards. So whatever a step
keeps is proved event by event, and the functions are not opened again.

* `Stage`, `Mark` — the places of a run in the loop of attempts, and what is counted there;
* `Run.Raises`, `Run.Adopts`, `Run.Judges` — the questions, plans and verdicts that can come up;
* `Run.Event` — what a step can be;
* `Run.Step.event` — every step is one of these;
* `Run.Event.mark_eq`, `Run.Event.bus`, `Run.Event.plan` — what an event sets about, what it makes
  known, and what it leaves of the plan.
-/

namespace PlanRunner

-- ---------------------------------------------------------------------------
-- The loop of attempts
-- ---------------------------------------------------------------------------

/-- The place of a run in the loop of attempts. -/
inductive Stage where
  /-- There is no plan to execute yet. -/
  | opening
  | executing
  | evaluating
  /-- The next attempt is being prepared. -/
  | retrying
  | over (error : Option RunError)

/-- What is counted of a run: that it begins to execute its plan, and that it puts a question
about the attempt. A run that has been cancelled puts its questions to nobody. -/
inductive Mark where
  | execution
  | evaluation
  | strategy
  deriving DecidableEq

def Question.stage : Question → Stage
  | .directCheck => .opening
  | .directAnswer => .opening
  | .plan => .opening
  | .evaluation => .evaluating
  | .strategy _ => .retrying
  | .arguments _ _ _ => .retrying

def Question.mark : Question → Option Mark
  | .directCheck => none
  | .directAnswer => none
  | .plan => none
  | .evaluation => some .evaluation
  | .strategy _ => some .strategy
  | .arguments _ _ _ => none

def Phase.stage : Phase → Stage
  | .starting _ => .opening
  | .asking question _ => question.stage
  | .executing _ _ => .executing
  | .over error => .over error

/-- With what a run is over, if it is. -/
def Phase.over? : Phase → Option (Option RunError)
  | .over error => some error
  | _ => none

theorem Phase.eq_over_of_over? {p : Phase} {error : Option RunError} (h : p.over? = some error) :
    p = .over error := by
  unfold Phase.over? at h
  split at h
  · rw [Option.some.inj h]
  · exact absurd h (by simp)

/-- What a run sets about with a step from one phase to another. An execution that goes on is
not begun again. -/
def Phase.mark : Phase → Phase → Option Mark
  | .executing _ _, .executing _ _ => none
  | _, .executing _ _ => some .execution
  | _, .asking question _ => question.mark
  | _, .starting _ => none
  | _, .over _ => none

@[simp] theorem Phase.mark_asking (p : Phase) (question : Question) (answer : Answer) :
    p.mark (.asking question answer) = question.mark := by
  cases p <;> rfl

@[simp] theorem Phase.mark_over (p : Phase) (error : Option RunError) : p.mark (.over error) = none := by
  cases p <;> rfl

/-- Setting about a tree, at first or in a retry, is marked as an execution. -/
theorem Phase.mark_executing {p : Phase} (h : p.stage = .opening ∨ p.stage = .retrying)
    (walks : List Walk) (nextTicket : Nat) :
    p.mark (.executing walks nextTicket) = some .execution := by
  match p, h with
  | .starting _, _ => rfl
  | .asking _ _, _ => rfl
  | .executing _ _, h => simp [Phase.stage] at h
  | .over _, _ => rfl

/-- The last stage tells the error the run ended with. -/
theorem Phase.eq_over_of_stage {p : Phase} {error : Option RunError} (h : p.stage = .over error) :
    p = .over error := by
  match p, h with
  | .asking question _, h => cases question <;> exact Stage.noConfusion h
  | .over _, h => rw [Stage.over.inj h]

namespace Run

variable {σ : Type} {s : Services σ} {around : Surroundings σ} {r q : Run} {x : Surroundings σ × Run}

-- ---------------------------------------------------------------------------
-- What can come up
-- ---------------------------------------------------------------------------

/-- A run with another log. -/
def withLogs (r : Run) (logs : List String) : Run := { r with ledger := { r.ledger with logs := logs } }

/-- A run with the text of what its attempt produced. -/
def aggregated (r : Run) : Run := { r with resultText := r.planOrEmpty.resultText r.ledger }

/-- A run whose attempt has been found insufficient, with one retry used up. -/
def reconsidered (r : Run) (verdict : Verdict) : Run :=
  { r.log s!"Attempt {r.attempt} insufficient: {verdict.reason}" with retries := r.retries + 1 }

/-- Whether a run is at the end of an execution that nobody has cancelled. -/
def Executed (r : Run) : Prop :=
  r.cancelled = false ∧ ∃ walks ticket, r.phase = .executing walks ticket ∧
    walks.all Walk.isDone = true

theorem Executed.stage (h : r.Executed) : r.phase.stage = .executing := by
  obtain ⟨-, walks, ticket, hphase, -⟩ := h
  rw [hphase]
  rfl

/-- The verdict in the answer to an evaluation. Whatever is no verdict is an insufficient one, a
cancellation apart. -/
def verdictOf? : Except RunError String → Option Verdict
  | .error .cancelled => none
  | .ok reply =>
    some ((Verdict.ofReply reply).getD (.insufficient "evaluator reply was not a verdict"))
  | .error e => some (.insufficient s!"evaluation failed: {e.message}")

/-- An answer to the evaluation is judged by the verdict it comes to, also when it cannot be read.
-/
theorem answered_evaluation {outcome : Except RunError String} {verdict : Verdict}
    (h : verdictOf? outcome = some verdict) :
    answered s around r .evaluation outcome = judged s around r verdict := by
  unfold verdictOf? at h
  split at h
  · exact absurd h (by simp)
  · rw [← Option.some.inj h]
    rfl
  · rename_i hopen
    rw [← Option.some.inj h, answered]
    exact hopen

/-- How adjustments go on: those of a strategy are begun, or an answer has come for one that waited
for it. Named are all of the adjustments, also those that have been worked off. -/
inductive Adjusts (r : Run) : String → List String → AdjustStep → Prop where
  | begins {reason reply : String} {answer : Answer} {adjustments : List Adjustment}
      (hphase : r.phase = .asking (.strategy reason) answer)
      (haction : RetryAction.ofReply reply = .adjust adjustments) :
      Adjusts r reason (adjustments.map Adjustment.nodeId)
        (Adjusting.proceed (adjustments.map Adjustment.nodeId) r.planOrEmpty [] adjustments)
  | goesOn {reason nodeId : String} {a : Adjusting} {answer : Answer}
      (hphase : r.phase = .asking (.arguments reason a nodeId) answer) (reply : String) :
      Adjusts r reason a.named (a.answered nodeId reply)

/-- The questions that a run comes to put without counting them. -/
inductive Raises (r : Run) : Question → Prop where
  | directCheck {request : Facts} (hphase : r.phase = .starting request) : Raises r .directCheck
  | directAnswer {answer : Answer} (hphase : r.phase = .asking .directCheck answer) :
      Raises r .directAnswer
  | planAtOnce {request : Facts} (hphase : r.phase = .starting request) : Raises r .plan
  | planInstead {answer : Answer} (hphase : r.phase = .asking .directCheck answer) : Raises r .plan
  | arguments {reason instruction : String} {named : List String} {state : Adjusting} {node : Node}
      (hadjusts : Adjusts r reason named (.asks state node instruction)) :
      Raises r (.arguments reason state node.id)

/-- The plans that a run comes to execute, and the ledgers it executes them with. The outcomes of
some nodes are carried over into a new one, or what depends on adjusted nodes is pending again. -/
inductive Adopts (r : Run) : Plan → Ledger → Prop where
  | planned {reply : String} {plan : Plan} {answer : Answer} (hphase : r.phase = .asking .plan answer)
      (hplan : Plan.ofReply reply = .ok plan) :
      Adopts r plan
        ((Ledger.carryOver plan.count r.ledger []).log s!"Planned {plan.count} node(s)")
  | replanned {reason reply nodeId : String} {subtree : Json} {plan : Plan} {ledger : Ledger}
      {answer : Answer} (hphase : r.phase = .asking (.strategy reason) answer)
      (haction : RetryAction.ofReply reply = .replan nodeId subtree)
      (hreplan : replan r.planOrEmpty r.ledger nodeId subtree = .again plan ledger) :
      Adopts r plan ledger
  | adjusted {reason : String} {named resets : List String} {plan : Plan}
      (hadjusts : Adjusts r reason named (.finished plan resets)) :
      Adopts r plan (Adjusting.finish named resets r.ledger)

/-- Which run is judged with which verdict: the one that has asked for it, or where failed nodes
alone are a verdict, the one at the end of its execution. -/
inductive Judges (s : Services σ) (r : Run) : Run → Verdict → Prop where
  | reply {answer : Answer} {outcome : Except RunError String} {verdict : Verdict}
      (hphase : r.phase = .asking .evaluation answer) (hverdict : verdictOf? outcome = some verdict) :
      Judges s r r verdict
  | failures (hexecuted : r.Executed) (hstrict : s.settings.failurePolicy = .strict)
      (hfailures : r.ledger.failures ≠ []) :
      Judges s r r.aggregated (.ofFailures r.ledger.failures)

/-- Arguments are adjusted in a retry. -/
theorem Adjusts.stage {reason : String} {named : List String} {next : AdjustStep}
    (h : Adjusts r reason named next) : r.phase.stage = .retrying := by
  cases h with
  | begins hphase _ =>
    rw [hphase]
    rfl
  | goesOn hphase _ =>
    rw [hphase]
    rfl

/-- Such a question belongs where the run stands. -/
theorem Raises.stage {question : Question} (h : Raises r question) :
    r.phase.stage = question.stage := by
  cases h with
  | directCheck hphase => exact congrArg Phase.stage hphase
  | directAnswer hphase => exact congrArg Phase.stage hphase
  | planAtOnce hphase => exact congrArg Phase.stage hphase
  | planInstead hphase => exact congrArg Phase.stage hphase
  | arguments hadjusts => exact hadjusts.stage

/-- The questions that are raised in passing have no mark of their own. -/
theorem Raises.mark {question : Question} (h : Raises r question) : question.mark = none := by
  cases h <;> rfl

/-- A plan is adopted at the opening or in a retry. -/
theorem Adopts.stage {plan : Plan} {ledger : Ledger} (h : Adopts r plan ledger) :
    r.phase.stage = .opening ∨ r.phase.stage = .retrying := by
  cases h with
  | planned hphase _ => exact .inl (congrArg Phase.stage hphase)
  | replanned hphase _ _ => exact .inr (congrArg Phase.stage hphase)
  | adjusted hadjusts => exact .inr hadjusts.stage

/-- The ledger a plan is adopted with goes on from the log of the run. -/
theorem Adopts.logs {plan : Plan} {ledger : Ledger} (h : Adopts r plan ledger) :
    r.ledger.logs <+: ledger.logs := by
  cases h with
  | planned _ _ => exact List.prefix_append _ _
  | replanned _ _ hreplan =>
    obtain ⟨_, _, -, -, -, rfl⟩ := replan_eq_again_iff.mp hreplan
    exact List.prefix_append _ _
  | adjusted _ =>
    rw [Adjusting.finish_logs]
    exact List.prefix_append _ _

/-- A run that is judged differs from the one before the step in its text at most. -/
theorem Judges.exists_eq {verdict : Verdict} (h : Judges s r q verdict) :
    ∃ text, q = { r with resultText := text } := by
  cases h with
  | reply _ _ => exact ⟨r.resultText, rfl⟩
  | failures _ _ _ => exact ⟨_, rfl⟩

/-- A verdict is passed at the end of an execution, or when the evaluator has answered. -/
theorem Judges.stage {verdict : Verdict} (h : Judges s r q verdict) :
    r.phase.stage = .executing ∨ r.phase.stage = .evaluating := by
  cases h with
  | reply hphase _ => exact .inr (congrArg Phase.stage hphase)
  | failures hexecuted _ _ => exact .inl hexecuted.stage

/-- A verdict is passed on the plan of the run. -/
theorem Judges.plan_eq {verdict : Verdict} (h : Judges s r q verdict) : q.plan = r.plan := by
  obtain ⟨text, rfl⟩ := h.exists_eq
  rfl

/-- A verdict is passed on the ledger of the run: only the result text may be new. -/
theorem Judges.ledger_eq {verdict : Verdict} (h : Judges s r q verdict) : q.ledger = r.ledger := by
  obtain ⟨text, rfl⟩ := h.exists_eq
  rfl

-- ---------------------------------------------------------------------------
-- Events
-- ---------------------------------------------------------------------------

/-- What a step of a run can be, and what the run sets about with it. -/
inductive Event (s : Services σ) (around : Surroundings σ) (r : Run) :
    Option Mark → Surroundings σ × Run → Prop where
  /-- A question is put that is not counted, in a context that the request may have changed, with
  some lines more in the log. -/
  | asks {question : Question} {logs : List String} (context : ProjectContext) (body : String)
      (hraises : Raises r question) (hlogs : r.ledger.logs <+: logs) :
      Event s around r none (ask s { around with context := context } (r.withLogs logs) question body)
  /-- There is no plan to execute, or the run has been cancelled. It waits for what it has begun:
  an execution has come to its end. -/
  | breaksOff (error : RunError) (hend : r.phase.stage = .opening ∨ error = .cancelled)
      (hdone : ∀ walks ticket, r.phase = .executing walks ticket → walks.all Walk.isDone = true) :
      Event s around r none (around, r.conclude (some error))
  | stops (reason why : String) (hstage : r.phase.stage = .retrying) :
      Event s around r none (giveUp around r reason why)
  | answersDirectly {answer : Answer} (text : String)
      (hphase : r.phase = .asking .directAnswer answer) :
      Event s around r none (around, r.answerDirectly text)
  | adopts {plan : Plan} {ledger : Ledger} (hadopts : Adopts r plan ledger) :
      Event s around r (some .execution) (adopt around r plan ledger)
  | walks {walks walks' : List Walk} {ticket : Nat} {sh : Shared σ}
      (hphase : r.phase = .executing walks ticket)
      (hturn : Traversal.Turn s.dispatch ⟨walks, r.shared around ticket⟩ ⟨walks', sh⟩) :
      Event s around r none (walked around r walks' sh)
  | consults (hexecuted : r.Executed)
      (hpolicy : s.settings.failurePolicy = .strict → r.ledger.failures = []) :
      Event s around r (some .evaluation) (ask s around r.aggregated .evaluation
        (Prompt.evaluation r.query r.aggregated.resultText r.ledger.failures))
  | accepts {q : Run} {verdict : Verdict} (hjudges : Judges s r q verdict)
      (hsufficient : verdict.sufficient = true) :
      Event s around r none (around, (q.log s!"Attempt {q.attempt} sufficient").conclude none)
  | exhausts {q : Run} {verdict : Verdict} (hjudges : Judges s r q verdict)
      (hinsufficient : verdict.sufficient = false) (hspent : s.settings.maxRetries ≤ r.retries) :
      Event s around r none
        (around, (q.log s!"Attempt {q.attempt} insufficient: {verdict.reason}").conclude
          (some (.retryBudgetExhausted q.attempt verdict.reason)))
  | reconsiders {q : Run} {verdict : Verdict} (hjudges : Judges s r q verdict)
      (hinsufficient : verdict.sufficient = false) (hleft : r.retries < s.settings.maxRetries)
      (body : String) :
      Event s around r (some .strategy)
        (ask s around (q.reconsidered verdict) (.strategy verdict.reason) body)

/-- A question changes nothing of a run but its phase. -/
theorem exists_ask (s : Services σ) (around : Surroundings σ) (r : Run) (question : Question)
    (body : String) :
    ∃ answer, (ask s around r question body).2 = { r with phase := .asking question answer } := by
  unfold ask
  split
  · exact ⟨_, rfl⟩
  · split
    · exact ⟨_, rfl⟩
    · exact ⟨_, rfl⟩

/-- A question makes nothing known. -/
theorem ask_bus (s : Services σ) (around : Surroundings σ) (r : Run) (question : Question)
    (body : String) : (ask s around r question body).1.bus = around.bus := by
  unfold ask
  split
  · rfl
  · split
    · rfl
    · rfl

/-- A run that is over takes no step. -/
theorem Step.live (h : r.Step s around x) (error : Option RunError) : r.phase ≠ .over error := by
  intro hover
  cases h with
  | begin hphase => exact Phase.noConfusion (hover.symm.trans hphase)
  | answered hphase _ => exact Phase.noConfusion (hover.symm.trans hphase)
  | walked hphase _ => exact Phase.noConfusion (hover.symm.trans hphase)
  | executed hphase _ => exact Phase.noConfusion (hover.symm.trans hphase)

/-- A sufficient verdict ends a run. -/
theorem judged_of_sufficient (s : Services σ) (around : Surroundings σ) (r : Run) {verdict : Verdict}
    (h : verdict.sufficient = true) :
    judged s around r verdict = (around, (r.log s!"Attempt {r.attempt} sufficient").conclude none) := by
  rw [judged, if_pos h]

-- ---------------------------------------------------------------------------
-- What follows from each function is an event
-- ---------------------------------------------------------------------------

/-- The first step asks, for a direct answer or for a plan. -/
theorem begin_event {request : Facts} (hphase : r.phase = .starting request) :
    ∃ m, Event s around r m (begin s around r request) := by
  -- a refreshed context leaves a line in the log before the question
  have hlogged : ∀ refreshed : Bool, ∃ logs, r.ledger.logs <+: logs ∧
      (if refreshed then r.log "Project context refreshed" else r) = r.withLogs logs := by
    intro refreshed
    cases refreshed with
    | false => exact ⟨r.ledger.logs, List.prefix_rfl, rfl⟩
    | true => exact ⟨_, List.prefix_append _ _, rfl⟩
  unfold begin askPlan
  obtain ⟨logs, hprefix, hlogs⟩ := hlogged (around.context.apply s.rules request).1
  simp only [hlogs]
  split
  · exact ⟨_, .asks _ _ (.directCheck hphase) hprefix⟩
  · exact ⟨_, .asks _ _ (.planAtOnce hphase) hprefix⟩

/-- A plan that can be read is adopted, and any other reply breaks the run off. -/
theorem planned_event {answer : Answer} (hphase : r.phase = .asking .plan answer) (reply : String) :
    ∃ m, Event s around r m (planned around r reply) := by
  unfold planned
  split
  · refine ⟨_, .breaksOff _ (.inl (congrArg Phase.stage hphase)) fun _ _ hexecuting => ?_⟩
    exact Phase.noConfusion (hphase.symm.trans hexecuting)
  · rename_i hplan
    exact ⟨_, .adopts (.planned hphase hplan)⟩

/-- A verdict is accepted, or exhausts the budget, or is reconsidered. -/
theorem Judges.event {verdict : Verdict} (h : Judges s r q verdict) :
    ∃ m, Event s around r m (judged s around q verdict) := by
  by_cases hsufficient : verdict.sufficient = true
  · rw [judged_of_sufficient s around q hsufficient]
    exact ⟨_, .accepts h hsufficient⟩
  · have hinsufficient : verdict.sufficient = false := Bool.eq_false_iff.mpr hsufficient
    have hretries : q.retries = r.retries := by
      obtain ⟨text, rfl⟩ := h.exists_eq
      rfl
    rw [judged, if_neg hsufficient]
    simp only
    split
    · rename_i hspent
      exact ⟨_, .exhausts h hinsufficient (hretries ▸ hspent)⟩
    · rename_i hleft
      exact ⟨_, .reconsiders h hinsufficient (hretries ▸ Nat.lt_of_not_le hleft) _⟩

/-- The adjustment asks about the next node, or is adopted, or stops at an unknown one. -/
theorem Adjusts.event {reason : String} {named : List String} {next : AdjustStep}
    (h : Adjusts r reason named next) : ∃ m, Event s around r m (adjust s around r reason named next) := by
  cases next with
  | finished plan resets => exact ⟨_, .adopts (.adjusted h)⟩
  | stopped why => exact ⟨_, .stops reason why h.stage⟩
  | asks state node instruction =>
    exact ⟨_, .asks around.context _ (.arguments h) (List.prefix_rfl : r.ledger.logs <+: _)⟩

/-- A retry asks about arguments, adopts another plan, or stops. -/
theorem retry_event {reason : String} {answer : Answer}
    (hphase : r.phase = .asking (.strategy reason) answer) {reply : String} {action : RetryAction}
    (haction : RetryAction.ofReply reply = action) :
    ∃ m, Event s around r m (retry s around r reason action) := by
  have hstage : r.phase.stage = .retrying := congrArg Phase.stage hphase
  cases action with
  | stop why => exact ⟨_, .stops reason why hstage⟩
  | adjust adjustments => exact Adjusts.event (.begins hphase haction)
  | replan nodeId subtree =>
    unfold retry
    simp only
    split
    · rename_i hreplan
      exact ⟨_, .adopts (.replanned hphase haction hreplan)⟩
    · exact ⟨_, .stops reason _ hstage⟩

theorem answered_event {question : Question} {answer : Answer}
    (hphase : r.phase = .asking question answer) (outcome : Except RunError String) :
    ∃ m, Event s around r m (answered s around r question outcome) := by
  have hstage : r.phase.stage = question.stage := congrArg Phase.stage hphase
  have hdone : ∀ walks ticket, r.phase = .executing walks ticket → walks.all Walk.isDone = true :=
    fun _ _ hexecuting => Phase.noConfusion (hphase.symm.trans hexecuting)
  -- an answer to an evaluation is a verdict, unless it is a cancellation
  have hevaluation : ∀ (outcome : Except RunError String) (verdict : Verdict),
      question = .evaluation → verdictOf? outcome = some verdict →
        ∃ m, Event s around r m (judged s around r verdict) :=
    fun _ _ hquestion hverdict => Judges.event (.reply (hquestion ▸ hphase) hverdict)
  unfold answered
  split
  · exact ⟨_, .breaksOff _ (.inr rfl) hdone⟩
  · split
    · exact ⟨_, .asks around.context _ (.directAnswer hphase) (List.prefix_rfl : r.ledger.logs <+: _)⟩
    · exact ⟨_, .asks around.context _ (.planInstead hphase) (List.prefix_rfl : r.ledger.logs <+: _)⟩
  · exact ⟨_, .asks around.context _ (.planInstead hphase) (List.prefix_append r.ledger.logs _)⟩
  · exact ⟨_, .answersDirectly _ hphase⟩
  · exact ⟨_, .breaksOff _ (.inl hstage) hdone⟩
  · exact planned_event hphase _
  · exact ⟨_, .breaksOff _ (.inl hstage) hdone⟩
  · rename_i reply
    exact hevaluation (.ok reply) _ rfl rfl
  · rename_i e hopen
    refine hevaluation (.error e) _ rfl ?_
    unfold verdictOf?
    split
    · rename_i herror
      exact absurd (Except.error.inj herror) hopen
    · rename_i herror
      exact absurd herror (by simp)
    · rename_i herror
      rw [Except.error.inj herror]
  · exact retry_event hphase rfl
  · exact ⟨_, .stops _ _ hstage⟩
  · exact Adjusts.event (.goesOn hphase _)
  · exact ⟨_, .stops _ _ hstage⟩

/-- After an execution the run breaks off, or is judged by its failures, or consults the evaluator.
-/
theorem executed_event {walks : List Walk} {ticket : Nat} (hphase : r.phase = .executing walks ticket)
    (hdone : walks.all Walk.isDone = true) : ∃ m, Event s around r m (executed s around r) := by
  unfold executed
  split
  · refine ⟨_, .breaksOff _ (.inr rfl) fun walks' ticket' hexecuting => ?_⟩
    obtain ⟨rfl, -⟩ := Phase.executing.inj (hphase.symm.trans hexecuting)
    exact hdone
  · rename_i hopen
    have hexecuted : r.Executed := ⟨Bool.eq_false_iff.mpr hopen, walks, ticket, hphase, hdone⟩
    simp only
    split
    · rename_i hfailed
      exact Judges.event (.failures hexecuted hfailed.1 hfailed.2)
    · rename_i hpassed
      exact ⟨_, .consults hexecuted fun hstrict => by_contra fun hfailures => hpassed ⟨hstrict, hfailures⟩⟩

/-- Every step is an event. -/
theorem Step.event (h : r.Step s around x) : ∃ m, Event s around r m x := by
  cases h with
  | begin hphase => exact begin_event hphase
  | answered hphase outcome => exact answered_event hphase outcome
  | walked hphase hturn => exact ⟨_, .walks hphase hturn⟩
  | executed hphase hdone => exact executed_event hphase hdone

variable {m : Option Mark}

/-- What the run sets about with an event is what is counted. -/
theorem Event.mark_eq (h : Event s around r m x) : r.phase.mark x.2.phase = m := by
  -- a question decides by itself
  have hask : ∀ (around' : Surroundings σ) (q : Run) (question : Question) (body : String),
      r.phase.mark (ask s around' q question body).2.phase = question.mark := by
    intro around' q question body
    obtain ⟨answer, hphase⟩ := ask_phase s around' q question body
    rw [hphase, Phase.mark_asking]
  cases h with
  | asks context body hraises hlogs => rw [hask, hraises.mark]
  | breaksOff error hend hdone => exact Phase.mark_over _ _
  | stops reason why hstage => exact Phase.mark_over _ _
  | answersDirectly text hphase => exact Phase.mark_over _ _
  | adopts hadopts => exact Phase.mark_executing hadopts.stage _ _
  | walks hphase hturn =>
    rw [hphase]
    rfl
  | consults hexecuted hpolicy => exact hask _ _ _ _
  | accepts hjudges hsufficient => exact Phase.mark_over _ _
  | exhausts hjudges hinsufficient hspent => exact Phase.mark_over _ _
  | reconsiders hjudges hinsufficient hleft body => exact hask _ _ _ _

-- ---------------------------------------------------------------------------
-- What an event makes known
-- ---------------------------------------------------------------------------

/-- What is published about a run before its end: one state at most, and it is running. -/
theorem Event.bus (h : Event s around r m x) : x.1.bus = around.bus ∨
    ∃ y : RunState, y.status = .running ∧ x.1.bus = around.bus.publish y := by
  cases h with
  | asks context body hraises hlogs => exact .inl (ask_bus _ _ _ _ _)
  | breaksOff error hend hdone => exact .inl rfl
  | stops reason why hstage => exact .inl rfl
  | answersDirectly text hphase => exact .inl rfl
  | adopts hadopts => exact .inr ⟨_, rfl, rfl⟩
  | @walks walks walks' ticket sh hphase hturn =>
    -- one change of the ledger is one state
    have hchange : sh.changes = [sh.ledger] → (walked around r walks' sh).1.bus =
        around.bus.publish { r with ledger := sh.ledger }.current := by
      intro hchanges
      rw [walked, hchanges]
      rfl
    cases hturn.touches with
    | quiet hledger hchanges =>
      have hnone : sh.changes = [] := hchanges
      refine .inl ?_
      rw [walked, hnone]
      rfl
    | starts hid hmark hchanges => exact .inr ⟨_, rfl, hchange hchanges⟩
    | ends hid outcome hrecord hchanges => exact .inr ⟨_, rfl, hchange hchanges⟩
  | consults hexecuted hpolicy => exact .inl (ask_bus _ _ _ _ _)
  | accepts hjudges hsufficient => exact .inl rfl
  | exhausts hjudges hinsufficient hspent => exact .inl rfl
  | reconsiders hjudges hinsufficient hleft body => exact .inl (ask_bus _ _ _ _ _)

/-- What a question leaves of the plan. -/
theorem ask_plan (s : Services σ) (around : Surroundings σ) (r : Run) (question : Question)
    (body : String) : (ask s around r question body).2.plan = r.plan := by
  obtain ⟨answer, hask⟩ := exists_ask s around r question body
  rw [hask]

/-- An event without an execution leaves the plan there is, or the empty one of a direct answer. -/
theorem Event.plan (h : Event s around r m x) :
    (∃ p, x.2.plan = some p) ∨ x.2.plan = r.plan ∧ m ≠ some .execution := by
  -- only a direct answer and an adoption set the plan
  cases h with
  | asks context body hraises hlogs => exact .inr ⟨ask_plan _ _ _ _ _, by simp⟩
  | breaksOff error hend hdone => exact .inr ⟨rfl, by simp⟩
  | stops reason why hstage => exact .inr ⟨rfl, by simp⟩
  | answersDirectly text hphase => exact .inl ⟨_, rfl⟩
  | adopts hadopts => exact .inl ⟨_, rfl⟩
  | walks hphase hturn => exact .inr ⟨rfl, by simp⟩
  | consults hexecuted hpolicy => exact .inr ⟨ask_plan _ _ _ _ _, by simp⟩
  | accepts hjudges hsufficient => exact .inr ⟨hjudges.plan_eq, by simp⟩
  | exhausts hjudges hinsufficient hspent => exact .inr ⟨hjudges.plan_eq, by simp⟩
  | reconsiders hjudges hinsufficient hleft body =>
    exact .inr ⟨(ask_plan _ _ _ _ _).trans hjudges.plan_eq, by simp⟩

end Run

end PlanRunner
