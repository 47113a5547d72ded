import PlanRunner.Proofs.Run.Budget

/-!
# PlanRunner — a retry is carried out as a whole or not at all

Adjustments are worked off one by one, and for each of them a language model may have to be asked
first. Any of them may turn out to be of no use after others have already been worked off, an
answer may not come, and the run may be cancelled in between. What has been worked off so far is
kept beside the run. The plan and the ledger of the run change in one moment, when all is done; up
to then they are as they were, and so they stay where the retry comes to nothing. That it was
given up is noted in the log afterwards.

* `Run.Retrying` — a run in which a retry is being carried out, whatever happens meanwhile;
* `RetryAction.Applies` — what a retry makes of a plan and a ledger as a whole;
* `Run.AfterRetry` — what can have become of the run;
* `Run.retry_atomic` — nothing else can.
-/

namespace PlanRunner

/-- The nodes named by adjustments under way are those named by all of them. -/
def AdjustStep.Names (named : List String) : AdjustStep → Prop
  | .asks state _ _ => state.named = named
  | .finished _ _ => True
  | .stopped _ => True

/-- Working off the adjustments does not change whom they name. -/
theorem Adjusting.proceed_names (named : List String) {todo : List Adjustment} {plan : Plan}
    {resets : List String} : (proceed named plan resets todo).Names named := by
  -- every adjustment that needs no question is worked off on the way to the next that does
  induction todo generalizing plan resets with
  | nil => trivial
  | cons a todo ih =>
    unfold proceed
    split
    · trivial
    · split
      · rfl
      · split
        · exact ih
        · trivial

/-- Nor does an answer. -/
theorem Adjusting.answered_names (a : Adjusting) (nodeId reply : String) :
    (a.answered nodeId reply).Names a.named := by
  unfold answered
  split
  · split
    · exact proceed_names a.named
    · trivial
  · trivial

/-- What a retry makes of a plan and a ledger when it is carried out as a whole. Answers that are
needed may be any. -/
def RetryAction.Applies (p : Plan) (l : Ledger) : RetryAction → Plan → Ledger → Prop
  | .stop _, _, _ => False
  | .replan nodeId subtree, plan, ledger => PlanRunner.replan p l nodeId subtree = .again plan ledger
  | .adjust adjustments, plan, ledger => ∃ resets,
      (Adjusting.proceed (adjustments.map Adjustment.nodeId) p [] adjustments).Settles plan resets ∧
        ledger = Adjusting.finish (adjustments.map Adjustment.nodeId) resets l

namespace Run

variable {σ : Type} {s : Services σ} {around : Surroundings σ} {r q : Run} {reason : String}
  {action : RetryAction}

/-- The run `r` has been told to retry. Since then it has gone on as long as the retry was being
carried out, with any answers, and may have been cancelled at any time. -/
inductive Retrying (s : Services σ) (r : Run) (reason : String) (action : RetryAction) : Run → Prop where
  | told (around : Surroundings σ) : Retrying s r reason action (retry s around r reason action).2
  | step {q : Run} {around : Surroundings σ} {x : Surroundings σ × Run}
      (h : Retrying s r reason action q) {question : Question} {answer : Answer}
      (hphase : q.phase = .asking question answer) (hstep : q.Step s around x) :
      Retrying s r reason action x.2
  | cancel {q : Run} (h : Retrying s r reason action q) (nowMs : Nat) :
      Retrying s r reason action (q.cancel nowMs)

/-- What has become of a run `r` that was told to retry. -/
inductive AfterRetry (r : Run) (reason : String) (action : RetryAction) (q : Run) : Prop where
  /-- It waits for the arguments of a node, and nothing has changed. Whatever the rest of the
  adjustments comes to, all of them come to. -/
  | waits {a : Adjusting} {nodeId : String} {answer : Answer} {adjustments : List Adjustment}
      (hphase : q.phase = .asking (.arguments reason a nodeId) answer)
      (hplan : q.plan = r.plan) (hledger : q.ledger = r.ledger) (hattempt : q.attempt = r.attempt)
      (haction : action = .adjust adjustments) (hnamed : a.named = adjustments.map Adjustment.nodeId)
      (hrest : ∀ reply plan resets, (a.answered nodeId reply).Settles plan resets →
        (Adjusting.proceed (adjustments.map Adjustment.nodeId) r.planOrEmpty [] adjustments).Settles
          plan resets)
  /-- It has been cancelled, and nothing has changed. -/
  | cancelled (hphase : q.phase = .over (some .cancelled)) (hplan : q.plan = r.plan)
      (hledger : q.ledger = r.ledger)
  /-- The retry has been given up. Nothing has changed, and this has been noted. -/
  | stopped (why : String)
      (hphase : q.phase = .over (some (.retryBudgetExhausted r.attempt
        s!"{reason}; retry stopped: {why}")))
      (hplan : q.plan = r.plan) (hledger : q.ledger = r.ledger.log s!"Retry stopped: {why}")
  /-- It executes the plan that the whole retry leads to, with the ledger that goes with it. -/
  | applied {plan : Plan} {ledger : Ledger} (h : action.Applies r.planOrEmpty r.ledger plan ledger)
      (hphase : q.phase = .executing (plan.roots.map fun root => .fresh root none none) 0)
      (hplan : q.plan = some plan) (hledger : q.ledger = ledger)

/-- A cancellation adds nothing to what a retry has done. -/
theorem AfterRetry.cancel (h : AfterRetry r reason action q) (nowMs : Nat) :
    AfterRetry r reason action (q.cancel nowMs) := by
  cases h with
  | waits hphase hplan hledger hattempt haction hnamed hrest =>
    exact .waits hphase hplan hledger hattempt haction hnamed hrest
  | cancelled hphase hplan hledger => exact .cancelled hphase hplan hledger
  | stopped why hphase hplan hledger => exact .stopped why hphase hplan hledger
  | applied h hphase hplan hledger => exact .applied h hphase hplan hledger

/-- A run in which nothing has changed gives up. -/
theorem giveUp_after (around : Surroundings σ) (why : String) (hplan : q.plan = r.plan)
    (hledger : q.ledger = r.ledger) (hattempt : q.attempt = r.attempt) :
    AfterRetry r reason action (giveUp around q reason why).2 := by
  refine .stopped why ?_ hplan ?_
  · rw [← hattempt]
    rfl
  · rw [← hledger]
    rfl

/-- A run in which nothing has changed takes the next step of adjustments. What this step comes
to has to be what all of them come to. -/
theorem adjust_after {adjustments : List Adjustment} {next : AdjustStep} (hplan : q.plan = r.plan)
    (hledger : q.ledger = r.ledger) (hattempt : q.attempt = r.attempt)
    (hnames : next.Names (adjustments.map Adjustment.nodeId))
    (hnext : ∀ plan resets, next.Settles plan resets →
      (Adjusting.proceed (adjustments.map Adjustment.nodeId) r.planOrEmpty [] adjustments).Settles
        plan resets) :
    AfterRetry r reason (.adjust adjustments)
      (adjust s around q reason (adjustments.map Adjustment.nodeId) next).2 := by
  cases next with
  | finished plan resets =>
    refine .applied ⟨resets, hnext plan resets .finished, rfl⟩ rfl rfl ?_
    rw [← hledger]
    rfl
  | stopped why => exact giveUp_after around why hplan hledger hattempt
  | asks state node instruction =>
    obtain ⟨answer, hask⟩ : ∃ answer, (adjust s around q reason (adjustments.map Adjustment.nodeId)
        (.asks state node instruction)).2 =
          { q with phase := .asking (.arguments reason state node.id) answer } :=
      exists_ask s around q _ _
    rw [hask]
    exact .waits rfl hplan hledger hattempt rfl hnames fun reply plan resets h =>
      hnext plan resets (.answered h)

/-- A retry that is told of is under way, or it has been taken up or given up. -/
theorem retry_after (s : Services σ) (around : Surroundings σ) (r : Run) (reason : String)
    (action : RetryAction) : AfterRetry r reason action (retry s around r reason action).2 := by
  cases action with
  | stop why => exact giveUp_after around why rfl rfl rfl
  | replan nodeId subtree =>
    unfold retry
    simp only
    split
    · rename_i plan ledger hreplan
      exact .applied hreplan rfl rfl rfl
    · exact giveUp_after around _ rfl rfl rfl
  | adjust adjustments =>
    exact adjust_after rfl rfl rfl (Adjusting.proceed_names _) fun _ _ h => h

/-- The answer to a question about arguments: they are worked off, or they are of no use. -/
theorem AfterRetry.step {x : Surroundings σ × Run} (h : AfterRetry r reason action q)
    {question : Question} {answer : Answer} (hphase : q.phase = .asking question answer)
    (hstep : q.Step s around x) : AfterRetry r reason action x.2 := by
  cases h with
  | cancelled hover _ _ => exact Phase.noConfusion (hphase.symm.trans hover)
  | stopped why hover _ _ => exact Phase.noConfusion (hphase.symm.trans hover)
  | applied _ hexecuting _ _ => exact Phase.noConfusion (hphase.symm.trans hexecuting)
  | @waits a nodeId answer adjustments hwaits hplan hledger hattempt haction hnamed hrest =>
    subst haction
    cases hstep with
    | begin hstarting => exact Phase.noConfusion (hphase.symm.trans hstarting)
    | walked hexecuting _ => exact Phase.noConfusion (hphase.symm.trans hexecuting)
    | executed hexecuting _ => exact Phase.noConfusion (hphase.symm.trans hexecuting)
    -- only the answer to the question about arguments goes on from here
    | answered hasking outcome =>
      obtain ⟨rfl, rfl⟩ := Phase.asking.inj (hwaits.symm.trans hasking)
      cases outcome with
      | ok reply =>
        have hnames := a.answered_names nodeId reply
        rw [hnamed] at hnames
        have hafter : AfterRetry r reason (.adjust adjustments) (adjust s around q reason
            (adjustments.map Adjustment.nodeId) (a.answered nodeId reply)).2 :=
          adjust_after hplan hledger hattempt hnames (hrest reply)
        rw [← hnamed] at hafter
        exact hafter
      | error e =>
        by_cases hcancel : e = .cancelled
        · subst hcancel
          exact .cancelled rfl hplan hledger
        · have hstop : answered s around q (.arguments reason a nodeId) (.error e) =
              giveUp around q reason s!"parameter extraction failed: {e.message}" := by
            rw [answered]
            exact hcancel
          rw [hstop]
          exact giveUp_after around _ hplan hledger hattempt

/-- **A retry is carried out as a whole or not at all.** A run with any plan and any ledger is told
to retry in any way. As long as the retry is being carried out, whatever is answered to the
questions about arguments, for whichever of the adjustments an answer fails to come or is of no
use, and whenever the run is cancelled: it waits with the plan and the ledger it had, it is over
with them, the log having one more line if the retry was given up, or it executes what the whole
retry makes of them. -/
theorem retry_atomic (h : Retrying s r reason action q) : AfterRetry r reason action q := by
  induction h with
  | told around => exact retry_after s around r reason action
  | step _ hphase hstep ih => exact ih.step hphase hstep
  | cancel _ nowMs ih => exact ih.cancel nowMs

-- ---------------------------------------------------------------------------
-- Adjustments of which the second is of no use
-- ---------------------------------------------------------------------------

/-- A run of which two nodes have ended. -/
def halfwayRun : Run :=
  { Run.start "run-1" "q" .empty 0 with
    attempt := 1
    retries := 1
    plan := some Traversal.echoPlan
    ledger := ((Ledger.start 5).markCompleted "a" (.str "done")).markFailed "b" "lost" }

/-- The first node is to get arguments that have to be found out, and there is no second one. -/
def halfwayAction : RetryAction :=
  .adjust [⟨"a", .instruction "louder"⟩, ⟨"z", .args (.obj [])⟩]

/-- The adjustments while the arguments of the first node are asked for. -/
def halfwayAdjusting : Adjusting :=
  ⟨Traversal.echoPlan, [], [⟨"z", .args (.obj [])⟩], ["a", "z"]⟩

/-- The arguments are found out, and then the adjustments are given up. What depends on the first
node stays as it was. -/
theorem retry_atomic_halfway :
    ∃ (q : Run) (why : String), Retrying doubtingServices halfwayRun "more" halfwayAction q ∧
      q.phase = .over (some (.retryBudgetExhausted 1 s!"more; retry stopped: {why}")) ∧
      q.plan = some Traversal.echoPlan ∧
      q.ledger = halfwayRun.ledger.log s!"Retry stopped: {why}" := by
  have hstop : (match halfwayAdjusting.answered "a" "\x7b\x7d" with
      | .stopped why => decide (why = "adjustment names unknown node 'z'")
      | _ => false) = true := by
    decide +kernel
  let around : Surroundings Unit := ⟨0, (), .start .empty, .withCapacity 1⟩
  let q := (retry doubtingServices around halfwayRun "more" halfwayAction).2
  obtain ⟨answer, hphase⟩ : ∃ answer, q.phase = .asking (.arguments "more" halfwayAdjusting "a") answer :=
    ask_phase _ _ _ _ _
  have hstep : q.Step doubtingServices around (answered doubtingServices around q
      (.arguments "more" halfwayAdjusting "a") (.ok "\x7b\x7d")) := .answered hphase _
  have hretrying : Retrying doubtingServices halfwayRun "more" halfwayAction _ :=
    (Retrying.told around).step hphase hstep
  split at hstop
  · rename_i why hanswered
    obtain rfl := of_decide_eq_true hstop
    have hover : (answered doubtingServices around q (.arguments "more" halfwayAdjusting "a")
        (.ok "\x7b\x7d")).2 = (giveUp around q "more" "adjustment names unknown node 'z'").2 := by
      rw [answered, hanswered]
      rfl
    rw [hover] at hretrying
    cases retry_atomic hretrying with
    | waits hasking _ _ _ _ _ _ => exact Phase.noConfusion hasking
    | cancelled hcancelled _ _ => exact absurd (Phase.over.inj hcancelled) (by simp)
    | applied _ hexecuting _ _ => exact Phase.noConfusion hexecuting
    | stopped why hend hplan hledger => exact ⟨_, why, hretrying, hend, hplan, hledger⟩
  · exact absurd hstop (by simp)

end Run

end PlanRunner
