import Mathlib.Data.List.Chain
import PlanRunner.Proofs.Run.Conduct
import PlanRunner.Proofs.Run.Event

/-!
# PlanRunner — the budget of retries

A run that has a plan goes round in a loop: the plan is executed, the attempt is judged, and as
long as the verdict is insufficient and retries are left a strategy is asked for and the plan is
executed again. The loop has many exits, and it keeps two numbers, that of the attempts and that
of the retries. Here a run is reduced to its place in the loop and these two numbers, every step
of a run is one of five acts of the reduced machine, and what the machine does is counted.

* `Standing.Act` — what a step can do to the place in the loop and to the two numbers;
* `Run.Step.acts` — every step of a run is such an act;
* `Standing.Kept` — what holds of the numbers and of what has been set about so far;
* `Run.Course` — steps of a run, with cancellations between them, and what it sets about;
* `Run.exists_course` — the active run of an engine is in the midst of a course;
* `Run.Budgeted` — how a run stands by its budget: the bounds and the reported attempts;
* `Run.retry_budget` — every run does, and every run ends.
-/

namespace PlanRunner

-- ---------------------------------------------------------------------------
-- The loop of attempts
-- ---------------------------------------------------------------------------

/-- The task of the model to which the question goes that a mark stands for. -/
def Mark.task? : Mark → Option Task
  | .execution => none
  | .evaluation => some .evaluation
  | .strategy => some .retryStrategy

/-- A question of a task that has a mark is put under that mark. -/
theorem Question.mark_of_task {question : Question} {m : Mark} (h : m.task? = some question.task) :
    question.mark = some m := by
  cases m <;> cases question <;> first | rfl | simp [Mark.task?, Question.task] at h

/-- How a run stands in the loop. -/
structure Standing where
  stage : Stage
  attempt : Nat
  retries : Nat

namespace Standing

/-- Whether there is an attempt to be judged. -/
def Attempting (a : Standing) : Prop := a.stage = .executing ∨ a.stage = .evaluating

/-- How a run that stands like this can end. Before there is a plan it can end in any way. -/
inductive Ends (budget : Nat) (a : Standing) : Option RunError → Prop where
  | early (error : Option RunError) (h : a.stage = .opening) : Ends budget a error
  | cancelled : Ends budget a (some .cancelled)
  | sufficient (h : a.Attempting) : Ends budget a none
  | exhausted (why : String) (h : a.Attempting) (hspent : budget ≤ a.retries) :
      Ends budget a (some (.retryBudgetExhausted a.attempt why))
  | stopped (why : String) (h : a.stage = .retrying) :
      Ends budget a (some (.retryBudgetExhausted a.attempt why))

/-- What a step can do to it, and what the run sets about with it. -/
inductive Act (budget : Nat) (a : Standing) : Standing → Option Mark → Prop where
  | rest : Act budget a a none
  | execute (h : a.stage = .opening ∨ a.stage = .retrying) :
      Act budget a ⟨.executing, a.attempt + 1, a.retries⟩ (some .execution)
  | evaluate (h : a.stage = .executing) :
      Act budget a ⟨.evaluating, a.attempt, a.retries⟩ (some .evaluation)
  | retry (h : a.Attempting) (hleft : a.retries < budget) :
      Act budget a ⟨.retrying, a.attempt, a.retries + 1⟩ (some .strategy)
  | finish {error : Option RunError} (h : a.Ends budget error) :
      Act budget a ⟨.over error, a.attempt, a.retries⟩ none

end Standing

-- ---------------------------------------------------------------------------
-- Steps of a run are acts
-- ---------------------------------------------------------------------------

namespace Run

variable {σ : Type} {s : Services σ} {around : Surroundings σ} {r : Run} {x : Surroundings σ × Run}

def standing (r : Run) : Standing := ⟨r.phase.stage, r.attempt, r.retries⟩

/-- What follows for a run is an act. -/
def Acts (s : Services σ) (r : Run) (x : Surroundings σ × Run) : Prop :=
  r.standing.Act s.settings.maxRetries x.2.standing (r.phase.mark x.2.phase)

/-- A question puts the run where the question belongs. -/
theorem ask_standing (s : Services σ) (around : Surroundings σ) (r : Run) (question : Question)
    (body : String) :
    (ask s around r question body).2.standing = ⟨question.stage, r.attempt, r.retries⟩ := by
  obtain ⟨answer, hask⟩ := exists_ask s around r question body
  rw [hask]
  rfl

/-- An event is an act of the reduced machine. -/
theorem Event.act {m : Option Mark} (h : Event s around r m x) :
    r.standing.Act s.settings.maxRetries x.2.standing m := by
  cases h with
  | asks context body hraises hlogs =>
    -- such a question belongs where the run stands already
    rw [ask_standing, ← hraises.stage]
    exact .rest
  | breaksOff error hend hdone =>
    refine .finish ?_
    rcases hend with hstage | rfl
    · exact .early _ hstage
    · exact .cancelled
  | stops reason why hstage => exact .finish (.stopped _ hstage)
  | answersDirectly text hphase => exact .finish (.early _ (congrArg Phase.stage hphase))
  | adopts hadopts => exact .execute hadopts.stage
  | walks hphase hturn =>
    have hstage : r.standing = ⟨.executing, r.attempt, r.retries⟩ := by rw [standing, hphase]; rfl
    rw [hstage]
    exact .rest
  | consults hexecuted hpolicy =>
    rw [ask_standing]
    exact .evaluate hexecuted.stage
  | accepts hjudges hsufficient =>
    have hstage := hjudges.stage
    obtain ⟨text, rfl⟩ := hjudges.exists_eq
    exact .finish (.sufficient hstage)
  | exhausts hjudges hinsufficient hspent =>
    have hstage := hjudges.stage
    obtain ⟨text, rfl⟩ := hjudges.exists_eq
    exact .finish (.exhausted _ hstage hspent)
  | reconsiders hjudges hinsufficient hleft body =>
    have hstage := hjudges.stage
    obtain ⟨text, rfl⟩ := hjudges.exists_eq
    rw [ask_standing]
    exact .retry hstage hleft

/-- Every step of a run is an act. -/
theorem Step.acts (h : r.Step s around x) : Acts s r x := by
  obtain ⟨m, hevent⟩ := h.event
  rw [Acts, hevent.mark_eq]
  exact hevent.act

/-- A step without a mark asks no model of the task that the mark stands for: it is one whatever
that model is. -/
theorem Step.of_unmarked (h : r.Step s around x) {m : Mark} {task : Task} (htask : m.task? = some task)
    (hmark : r.phase.mark x.2.phase ≠ some m)
    {createClient : Task → σ → Except RunError (Client σ) × σ}
    (hsame : ∀ other, other ≠ task → createClient other = s.createClient other) :
    r.Step (s.withClients createClient) around x := by
  refine h.withClients (.inr fun question answer hphase => hsame _ fun heq => hmark ?_)
  rw [hphase, Phase.mark_asking]
  exact Question.mark_of_task (heq ▸ htask)

end Run

-- ---------------------------------------------------------------------------
-- What is kept in the loop
-- ---------------------------------------------------------------------------

/-- What may come next. Between two executions there is one strategy, and before it at most one
evaluation. -/
def Mark.Before : Mark → Mark → Prop
  | .execution, .evaluation => True
  | .execution, .strategy => True
  | .evaluation, .strategy => True
  | .strategy, .execution => True
  | _, _ => False

/-- Whether marks are in order. They begin like those after a strategy, with an execution. -/
def Mark.InOrder (marks : List Mark) : Prop := (Mark.strategy :: marks).IsChain Mark.Before

/-- The last mark, as if a strategy had preceded them all. -/
def Mark.last (marks : List Mark) : Mark := marks.getLast?.getD .strategy

@[simp] theorem Mark.last_concat (marks : List Mark) (m : Mark) : Mark.last (marks ++ [m]) = m := by
  rw [Mark.last, List.getLast?_concat, Option.getD_some]

/-- An ordered course goes on with whatever may come after its last mark. -/
theorem Mark.InOrder.concat {marks : List Mark} {m : Mark} (h : Mark.InOrder marks)
    (hlast : (Mark.last marks).Before m) : Mark.InOrder (marks ++ [m]) := by
  have hchain : (Mark.strategy :: marks).IsChain Mark.Before := h
  refine hchain.append (List.isChain_singleton m) ?_
  intro m₁ hm₁ m₂ hm₂
  rw [List.getLast?_cons, Option.mem_some_iff] at hm₁
  rw [List.head?_singleton, Option.mem_some_iff] at hm₂
  rw [← hm₁, ← hm₂]
  exact hlast

namespace Standing

/-- What the place in the loop tells about the numbers and the last mark. -/
def Fits (a : Standing) (marks : List Mark) : Prop :=
  match a.stage with
  | .opening => marks = []
  | .executing => Mark.last marks = .execution ∧ a.attempt = a.retries + 1 ∧
      marks.count .evaluation < a.attempt
  | .evaluating => Mark.last marks = .evaluation ∧ a.attempt = a.retries + 1
  | .retrying => Mark.last marks = .strategy ∧ a.attempt = a.retries
  | .over error => ∀ attempts why, error = some (.retryBudgetExhausted attempts why) →
      marks = [] ∨ attempts = a.attempt

/-- What holds of how a run stands and what it has set about so far. -/
structure Kept (budget : Nat) (a : Standing) (marks : List Mark) : Prop where
  attempt : a.attempt = marks.count .execution
  retries : a.retries = marks.count .strategy
  attempt_le : a.attempt ≤ a.retries + 1
  retries_le : a.retries ≤ budget
  evaluations_le : marks.count .evaluation ≤ a.attempt
  order : Mark.InOrder marks
  fits : a.Fits marks

variable {budget : Nat} {a a' : Standing} {marks : List Mark} {m : Option Mark}

/-- Whoever sets about nothing leaves the numbers as they are. -/
theorem Act.unmarked (h : a.Act budget a' none) : a'.attempt = a.attempt ∧ a'.retries = a.retries := by
  cases h with
  | rest => exact ⟨rfl, rfl⟩
  | finish _ => exact ⟨rfl, rfl⟩

/-- Nothing is counted before the first step. -/
theorem Kept.start (budget : Nat) : Kept budget ⟨.opening, 0, 0⟩ [] where
  attempt := rfl
  retries := rfl
  attempt_le := Nat.zero_le _
  retries_le := Nat.zero_le _
  evaluations_le := Nat.le_refl _
  order := List.isChain_singleton _
  fits := rfl

/-- Where there is no plan to execute yet, none has been executed. -/
theorem Kept.execution_notMem (h : Kept budget a marks) (hstage : a.stage = .opening) :
    Mark.execution ∉ marks := by
  have hfits := h.fits
  simp only [Fits, hstage] at hfits
  rw [hfits]
  exact List.not_mem_nil

/-- Where the plan is about to be executed, there have been as many attempts as retries. -/
theorem Kept.between (h : Kept budget a marks) (hstage : a.stage = .opening ∨ a.stage = .retrying) :
    Mark.last marks = .strategy ∧ a.attempt = a.retries := by
  have hfits := h.fits
  rcases hstage with hstage | hstage
  · simp only [Fits, hstage] at hfits
    obtain rfl := hfits
    exact ⟨rfl, by rw [h.attempt, h.retries]; rfl⟩
  · simpa only [Fits, hstage] using hfits

/-- Where an attempt is to be judged, it is one more than there have been retries. -/
theorem Kept.attempting (h : Kept budget a marks) (hstage : a.Attempting) :
    (Mark.last marks).Before .strategy ∧ a.attempt = a.retries + 1 := by
  have hfits := h.fits
  rcases hstage with hstage | hstage
  · simp only [Fits, hstage] at hfits
    rw [hfits.1]
    exact ⟨trivial, hfits.2.1⟩
  · simp only [Fits, hstage] at hfits
    rw [hfits.1]
    exact ⟨trivial, hfits.2⟩

/-- A tree is run out of a plan or out of a retry, and the attempts stay one ahead of the retries.
-/
theorem Kept.execute (h : Kept budget a marks) (hstage : a.stage = .opening ∨ a.stage = .retrying) :
    Kept budget ⟨.executing, a.attempt + 1, a.retries⟩ (marks ++ [.execution]) where
  attempt := by simp [h.attempt]
  retries := by simp [h.retries]
  attempt_le := Nat.succ_le_succ (h.between hstage).2.le
  retries_le := h.retries_le
  evaluations_le := by simpa using Nat.le_succ_of_le h.evaluations_le
  order := h.order.concat ((h.between hstage).1 ▸ trivial)
  fits := by
    -- an attempt is evaluated once at most, so a new one has a verdict to spare
    have hevaluations : (marks ++ [Mark.execution]).count .evaluation < a.attempt + 1 := by
      simpa using Nat.lt_succ_of_le h.evaluations_le
    exact ⟨Mark.last_concat _ _, congrArg Nat.succ (h.between hstage).2, hevaluations⟩

/-- The one verdict of an attempt comes after its execution. -/
theorem Kept.evaluate (h : Kept budget a marks) (hstage : a.stage = .executing) :
    Kept budget ⟨.evaluating, a.attempt, a.retries⟩ (marks ++ [.evaluation]) := by
  have hfits := h.fits
  simp only [Fits, hstage] at hfits
  obtain ⟨hlast, heq, hlt⟩ := hfits
  refine ⟨?_, ?_, heq.le, h.retries_le, ?_, h.order.concat (hlast ▸ trivial), ?_⟩
  · simp [h.attempt]
  · simp [h.retries]
  · -- this execution has not been evaluated before
    simpa using Nat.succ_le_of_lt hlt
  · exact ⟨Mark.last_concat _ _, heq⟩

/-- A retry is taken out of an attempt, while the budget lasts. -/
theorem Kept.retry (h : Kept budget a marks) (hstage : a.Attempting) (hleft : a.retries < budget) :
    Kept budget ⟨.retrying, a.attempt, a.retries + 1⟩ (marks ++ [.strategy]) where
  attempt := by simp [h.attempt]
  retries := by simp [h.retries]
  attempt_le := Nat.le_succ_of_le h.attempt_le
  retries_le := hleft
  evaluations_le := by simpa using h.evaluations_le
  order := h.order.concat (h.attempting hstage).1
  fits := ⟨Mark.last_concat _ _, (h.attempting hstage).2⟩

/-- An end adds no mark, and an error that reports the attempts reports those that are counted. -/
theorem Kept.finish (h : Kept budget a marks) {error : Option RunError} (hends : a.Ends budget error) :
    Kept budget ⟨.over error, a.attempt, a.retries⟩ marks where
  attempt := h.attempt
  retries := h.retries
  attempt_le := h.attempt_le
  retries_le := h.retries_le
  evaluations_le := h.evaluations_le
  order := h.order
  fits := by
    intro attempts why herror
    cases hends with
    -- before there is a plan the budget is not looked at
    | early _ hstage =>
      have hfits := h.fits
      simp only [Fits, hstage] at hfits
      exact .inl hfits
    | cancelled => exact absurd herror (by simp)
    | sufficient _ => exact absurd herror (by simp)
    | exhausted _ _ _ => exact .inr (RunError.retryBudgetExhausted.inj (Option.some.inj herror)).1.symm
    | stopped _ _ => exact .inr (RunError.retryBudgetExhausted.inj (Option.some.inj herror)).1.symm

/-- An act keeps what holds. -/
theorem Kept.act (h : Kept budget a marks) (hact : a.Act budget a' m) :
    Kept budget a' (marks ++ m.toList) := by
  cases hact with
  | rest => rwa [Option.toList_none, List.append_nil]
  | execute hstage => exact h.execute hstage
  | evaluate hstage => exact h.evaluate hstage
  | retry hstage hleft => exact h.retry hstage hleft
  | finish hends =>
    rw [Option.toList_none, List.append_nil]
    exact h.finish hends

end Standing

-- ---------------------------------------------------------------------------
-- The course of a run
-- ---------------------------------------------------------------------------

namespace Run

variable {σ : Type} {s : Services σ} {around : Surroundings σ} {r₀ r r' : Run}
  {x : Surroundings σ × Run} {marks : List Mark} {P : Surroundings σ → Run → Surroundings σ × Run → Prop}

/-- The course of a run: it takes steps, each in any surroundings, and may be cancelled between
any two of them. What it sets about is in `marks`, in order. Of each step `P` holds. -/
inductive Course (s : Services σ) (P : Surroundings σ → Run → Surroundings σ × Run → Prop)
    (r₀ : Run) : Run → List Mark → Prop where
  | start : Course s P r₀ r₀ []
  | step {r : Run} {marks : List Mark} {around : Surroundings σ} {x : Surroundings σ × Run}
      (h : Course s P r₀ r marks) (hstep : r.Step s around x) (hp : P around r x) :
      Course s P r₀ x.2 (marks ++ (r.phase.mark x.2.phase).toList)
  | cancel {r : Run} {marks : List Mark} (h : Course s P r₀ r marks) (nowMs : Nat) :
      Course s P r₀ (r.cancel nowMs) marks

/-- Every step. -/
abbrev AnyStep (σ : Type) : Surroundings σ → Run → Surroundings σ × Run → Prop :=
  fun _ _ _ => True

/-- What is asked of the steps of a course can be forgotten. -/
theorem Course.any (h : Course s P r₀ r marks) : Course s (AnyStep σ) r₀ r marks := by
  induction h with
  | start => exact .start
  | step _ hstep _ ih => exact ih.step hstep trivial
  | cancel _ nowMs ih => exact ih.cancel nowMs

/-- A course keeps the calls in flight and the running nodes the same. -/
theorem Course.manned (h : Course s P r₀ r marks) (hr₀ : r₀.Manned) : r.Manned := by
  induction h with
  | start => exact hr₀
  | step _ hstep _ ih => exact hstep.manned ih
  | cancel _ nowMs ih => exact ih.cancel nowMs

/-- A course keeps the counters within the budget, by induction on its steps. -/
theorem Course.kept (h : Course s P r₀ r marks)
    (hr₀ : r₀.standing.Kept s.settings.maxRetries []) :
    r.standing.Kept s.settings.maxRetries marks := by
  induction h with
  | start => exact hr₀
  | step _ hstep _ ih => exact ih.act hstep.acts
  | cancel _ nowMs ih => exact ih

/-- What every event and every cancellation keeps, holds all along a course. -/
theorem Course.keeps {I : Run → List Mark → Prop} (h : Course s P r₀ r marks) (hfirst : I r₀ [])
    (hevent : ∀ {around : Surroundings σ} {r : Run} {marks : List Mark} {m : Option Mark}
      {x : Surroundings σ × Run}, Course s P r₀ r marks → (∀ error, r.phase ≠ .over error) →
        Event s around r m x → I r marks → I x.2 (marks ++ m.toList))
    (hcancel : ∀ {r : Run} {marks : List Mark} (nowMs : Nat), I r marks → I (r.cancel nowMs) marks) :
    I r marks := by
  induction h with
  | start => exact hfirst
  | step hcourse hstep _ ih =>
    obtain ⟨m, hhappens⟩ := hstep.event
    rw [hhappens.mark_eq]
    exact hevent hcourse hstep.live hhappens ih
  | cancel _ nowMs ih => exact hcancel nowMs ih

/-- A run that has executed a plan has one. -/
theorem Course.exists_plan (h : Course s P r₀ r marks) (hplan : .execution ∈ marks) :
    ∃ p, r.plan = some p := by
  refine h.keeps (I := fun r marks => .execution ∈ marks → ∃ p, r.plan = some p)
    (fun hmem => absurd hmem List.not_mem_nil) ?_ (fun _ hkept => hkept) hplan
  intro around r marks m x _ _ hevent hkept hmem
  rw [List.mem_append, Option.mem_toList] at hmem
  rcases hevent.plan with hsome | ⟨hsame, hmark⟩
  · exact hsome
  · rw [hsame]
    exact hkept (hmem.resolve_right hmark)

/-- Carrying a run on continues its course. -/
theorem Course.drive (s : Services σ) (limit : Option Nat) (around : Surroundings σ) (r : Run) :
    ∀ {marks : List Mark}, Course s (AnyStep σ) r₀ r marks →
      ∃ more, Course s (AnyStep σ) r₀ (r.drive s limit around).2 (marks ++ more) := by
  -- a run that the engine drives takes the steps of a course until none is due
  induction around, r using Run.drive.induct s limit with
  | case1 around r hnext =>
    intro marks h
    rw [drive_of_next?_eq_none hnext]
    exact ⟨[], by rwa [List.append_nil]⟩
  | case2 around r around' r' hnext ih =>
    intro marks h
    obtain ⟨later, hstep⟩ := exists_step_of_next? hnext
    obtain ⟨more, hmore⟩ := ih (h.step hstep trivial)
    rw [drive_of_next?_eq_some hnext]
    exact ⟨_, by rwa [List.append_assoc] at hmore⟩

-- ---------------------------------------------------------------------------
-- No course goes on for ever
-- ---------------------------------------------------------------------------

/-- A step brings a run closer to its end. -/
theorem Step.closer (h : r.Step s around x) : Closer s.settings x.2 r := by
  cases h with
  | begin hphase => exact closer_begin hphase
  | answered hphase outcome => exact closer_answered hphase
  | walked hphase hturn => exact closer_walked hphase hturn.weight_lt
  | executed hphase hdone => exact closer_executed hphase

/-- Whether a run is followed by `r'` with a step, before which it may have been cancelled. -/
def Follows (s : Services σ) (r' r : Run) : Prop :=
  ∃ around x r₁, (r₁ = r ∨ ∃ nowMs, r₁ = r.cancel nowMs) ∧ r₁.Step s around x ∧ r' = x.2

/-- A run that is left alone comes to an end: each step uses up a retry, a stage or weight of the
walks. -/
theorem follows_wf (s : Services σ) : WellFounded (Follows s) := by
  refine Subrelation.wf ?_ (closer_wf s.settings)
  rintro r' r ⟨around, x, r₁, hr₁, hstep, rfl⟩
  have hcloser := hstep.closer
  -- what is left to do does not depend on a cancellation
  rcases hr₁ with rfl | ⟨nowMs, rfl⟩
  · exact hcloser
  · exact hcloser

-- ---------------------------------------------------------------------------
-- Attempts that are never good enough
-- ---------------------------------------------------------------------------

/-- A step as it is taken when nobody cancels the run, every verdict is insufficient and every
strategy is carried out: the answer to an evaluation holds such a verdict, and while the next
attempt is prepared the run does not end. -/
structure Contested (s : Services σ) (around : Surroundings σ) (r : Run)
    (x : Surroundings σ × Run) : Prop where
  uncancelled : r.cancelled = false
  verdict : ∀ answer, r.phase = .asking .evaluation answer →
    ∃ outcome verdict, verdictOf? outcome = some verdict ∧ verdict.sufficient = false ∧
      x = answered s around r .evaluation outcome
  applied : r.phase.stage = .retrying → ∀ error, x.2.phase ≠ .over error

/-- An insufficient verdict ends a run only if no retry is left. -/
theorem judged_over {verdict : Verdict} {error : Option RunError}
    (hverdict : verdict.sufficient = false) (hover : (judged s around r verdict).2.phase = .over error) :
    s.settings.maxRetries ≤ r.retries ∧
      error = some (.retryBudgetExhausted r.attempt verdict.reason) := by
  unfold judged at hover
  simp only [hverdict, Bool.false_eq_true, if_false] at hover
  split at hover
  · rename_i hspent
    exact ⟨hspent, (Phase.over.inj hover).symm⟩
  · obtain ⟨answer, hphase⟩ := ask_phase s around
      { r.log s!"Attempt {r.attempt} insufficient: {verdict.reason}" with retries := r.retries + 1 }
      (.strategy verdict.reason) (Prompt.retryStrategy r.query r.planOrEmpty r.resultText
        verdict.reason r.ledger.failures)
    exact Phase.noConfusion (hphase.symm.trans hover)

/-- Once there is a plan, a run ends with such a step only if no retry is left. -/
theorem Contested.exhausted (h : Contested s around r x) (hstep : r.Step s around x)
    (hstage : r.phase.stage ≠ .opening) {error : Option RunError}
    (hover : x.2.phase = .over error) :
    r.standing.Attempting ∧ s.settings.maxRetries ≤ r.retries ∧
      ∃ why, error = some (.retryBudgetExhausted r.attempt why) := by
  cases hstep with
  | begin hphase =>
    rw [hphase] at hstage
    exact absurd rfl hstage
  | @answered question answer hphase outcome =>
    have hquestion : r.phase.stage = question.stage := by
      rw [hphase]
      rfl
    -- by what was asked; only a verdict may end a contested run, and it does so when no retry is
    -- left
    cases question with
    | directCheck => exact absurd hquestion hstage
    | directAnswer => exact absurd hquestion hstage
    | plan => exact absurd hquestion hstage
    | evaluation =>
      obtain ⟨outcome, verdict, hverdict, hinsufficient, hx⟩ := h.verdict answer hphase
      rw [hx, answered_evaluation hverdict] at hover
      obtain ⟨hspent, herror⟩ := judged_over hinsufficient hover
      exact ⟨.inr hquestion, hspent, _, herror⟩
    | strategy reason => exact absurd hover (h.applied hquestion error)
    | arguments reason adjusting nodeId => exact absurd hover (h.applied hquestion error)
  | walked _ _ => exact Phase.noConfusion hover
  | executed hphase _ =>
    have hexecuting : r.phase.stage = .executing := by
      rw [hphase]
      rfl
    unfold executed at hover
    simp only [h.uncancelled, Bool.false_eq_true, if_false] at hover
    split at hover
    · -- failed nodes alone are an insufficient verdict
      obtain ⟨hspent, herror⟩ := judged_over rfl hover
      exact ⟨.inl hexecuting, hspent, _, herror⟩
    · obtain ⟨answer, hasking⟩ := ask_phase s around
        { r with resultText := r.planOrEmpty.resultText r.ledger } .evaluation
        (Prompt.evaluation r.query (r.planOrEmpty.resultText r.ledger) r.ledger.failures)
      exact Phase.noConfusion (hasking.symm.trans hover)

/-- A course of such steps uses up the budget. -/
theorem Course.exhausted (h : Course s P r₀ r marks)
    (hp : ∀ {around r x}, P around r x → Contested s around r x)
    (hr₀ : r₀.standing.Kept s.settings.maxRetries []) (hplan : .execution ∈ marks)
    {error : Option RunError} (hover : r.phase = .over error) :
    r.attempt = s.settings.maxRetries + 1 ∧ r.retries = s.settings.maxRetries ∧
      ∃ why, error = some (.retryBudgetExhausted (s.settings.maxRetries + 1) why) := by
  -- by the last step: the one that ends the run is contested, so it spent the budget
  induction h with
  | start => exact absurd hplan List.not_mem_nil
  | cancel _ nowMs ih => exact ih hplan hover
  | @step q marks around x h hstep hx =>
    have hkept := h.kept hr₀
    have hacts := hstep.acts
    have hmark : q.phase.mark x.2.phase = none := by rw [hover, Phase.mark_over]
    rw [Acts, hmark] at hacts
    rw [hmark, Option.toList_none, List.append_nil] at hplan
    have hstage : q.phase.stage ≠ .opening := by
      intro hopening
      have hfits := hkept.fits
      simp only [Standing.Fits, standing, hopening] at hfits
      rw [hfits] at hplan
      exact absurd hplan List.not_mem_nil
    obtain ⟨hattempting, hspent, why, herror⟩ := (hp hx).exhausted hstep hstage hover
    obtain ⟨hattempt, hretries⟩ : x.2.attempt = q.attempt ∧ x.2.retries = q.retries := hacts.unmarked
    have hlast : q.attempt = q.retries + 1 := (hkept.attempting hattempting).2
    have hle : q.retries ≤ s.settings.maxRetries := hkept.retries_le
    have hall : q.retries = s.settings.maxRetries := Nat.le_antisymm hle hspent
    rw [hall] at hretries hlast
    rw [hlast] at hattempt herror
    exact ⟨hattempt, hretries, why, herror⟩

/-- The active run of an engine, wherever the engine has come from its start, is in the midst of
such a course. -/
theorem exists_course {settings : Settings} {server : Facts} {world : σ} {nowMs : Nat}
    {e : Engine σ} (h : Engine.Steps s (.start settings server world nowMs) e)
    (hactive : e.active = some r) :
    ∃ id query request startMs marks,
      Course s (AnyStep σ) (.start id query request startMs) r marks := by
  induction h generalizing r with
  | refl => exact absurd hactive (by simp)
  | @tail e₁ e₂ _ hstep ih =>
    cases hstep with
    | accept haccept =>
      obtain rfl := Option.some.inj ((Engine.accept_eq_ok haccept).2.1.symm.trans hactive)
      exact ⟨_, _, _, _, _, .start⟩
    -- what is done to other runs, and what goes on around, is no part of this course
    | @run q x hq hrun =>
      obtain ⟨id, query, request, startMs, marks, hcourse⟩ := ih hq
      obtain rfl := Option.some.inj ((Engine.goOn_active e₁ x).symm.trans hactive)
      exact ⟨id, query, request, startMs, _, hcourse.step hrun trivial⟩
    | finish _ _ =>
      exact absurd hactive (by simp)
    | cancel =>
      unfold Engine.cancel at hactive
      split at hactive
      · exact ih hactive
      · rename_i q hq
        obtain ⟨id, query, request, startMs, marks, hcourse⟩ := ih hq
        obtain rfl := Option.some.inj hactive
        exact ⟨id, query, request, startMs, marks, hcourse.cancel _⟩
    | close => exact ih hactive
    | wait untilMs => exact ih hactive

/-- How a run stands by its budget with what it has set about. Its two numbers count the
executions and the strategies, and stay within the budget and within 32 bits. The marks are in
order, with at most one evaluation for each execution, and nothing is left out: a step without a
mark is the same with any other model for the task. If the budget is exhausted, the number of
attempts that is reported is that of the executions. -/
structure Budgeted (s : Services σ) (r : Run) (marks : List Mark) : Prop where
  attempt : r.attempt = marks.count .execution
  retries : r.retries = marks.count .strategy
  executions_le : marks.count .execution ≤ s.settings.maxRetries + 1
  strategies_le : marks.count .strategy ≤ s.settings.maxRetries
  evaluations_le : marks.count .evaluation ≤ marks.count .execution
  order : Mark.InOrder marks
  bits : s.settings.maxRetries < 2 ^ 32 - 1 → r.attempt < 2 ^ 32 ∧ r.retries < 2 ^ 32
  unmarked : ∀ {around x m task createClient}, r.Step s around x → Mark.task? m = some task →
    r.phase.mark x.2.phase ≠ some m →
      (∀ other, other ≠ task → createClient other = s.createClient other) →
        r.Step (s.withClients createClient) around x
  reported : ∀ attempts why, .execution ∈ marks →
    r.phase = .over (some (.retryBudgetExhausted attempts why)) → attempts = marks.count .execution

/-- A course whose counters start in order has all that the budget says of it. -/
theorem Course.budgeted (h : Course s P r₀ r marks)
    (hr₀ : r₀.standing.Kept s.settings.maxRetries []) : Budgeted s r marks := by
  have hkept := h.kept hr₀
  have hattempt : r.attempt = marks.count .execution := hkept.attempt
  have hretries : r.retries = marks.count .strategy := hkept.retries
  have hle : r.retries ≤ s.settings.maxRetries := hkept.retries_le
  have hattempt_le : r.attempt ≤ r.retries + 1 := hkept.attempt_le
  have hevaluations : marks.count .evaluation ≤ r.attempt := hkept.evaluations_le
  refine ⟨hattempt, hretries, by omega, by omega, by omega, hkept.order, fun hbits => by omega,
    fun hstep htask hmark hsame => hstep.of_unmarked htask hmark hsame, ?_⟩
  intro attempts why hplan hover
  -- a run that is over without a plan has no attempts to report
  have hfits := hkept.fits
  simp only [Standing.Fits, standing, hover, Phase.stage] at hfits
  rcases hfits attempts why rfl with hnone | hattempts
  · rw [hnone] at hplan
    exact absurd hplan List.not_mem_nil
  · rw [hattempts, hattempt]

/-- **The budget of retries.** Whatever the models and the layers reply and whenever it is
cancelled, a run stands by its budget of `N` retries: at most `N + 1` executions of its plan, at
most `N` strategies, and at most one evaluation for each execution. If every verdict is
insufficient and every strategy is carried out, it does not end before `N + 1` executions and
`N` strategies, and reports as many attempts. And it ends: its steps cannot go on for ever, and
carried on it comes to its end in such a course. -/
theorem retry_budget {id query : String} {request : Facts} {nowMs : Nat}
    (h : Course s P (.start id query request nowMs) r marks) :
    Budgeted s r marks ∧
    ((∀ {around r x}, P around r x → Contested s around r x) → .execution ∈ marks →
      ∀ error, r.phase = .over error →
        marks.count .execution = s.settings.maxRetries + 1 ∧
        marks.count .strategy = s.settings.maxRetries ∧
        ∃ why, error = some (.retryBudgetExhausted (s.settings.maxRetries + 1) why)) ∧
    Acc (Follows s) r ∧
    ∀ around, ∃ more error, (r.drive s none around).2.phase = .over error ∧
      Course s (AnyStep σ) (.start id query request nowMs) (r.drive s none around).2
        (marks ++ more) := by
  have hstart : (Run.start id query request nowMs).standing.Kept s.settings.maxRetries [] :=
    .start _
  have hbudgeted := h.budgeted hstart
  refine ⟨hbudgeted, fun hp hplan error hover => ?_, (follows_wf s).apply r, fun around => ?_⟩
  · obtain ⟨hall, hspent, hreport⟩ := h.exhausted hp hstart hplan hover
    exact ⟨hbudgeted.attempt ▸ hall, hbudgeted.retries ▸ hspent, hreport⟩
  · obtain ⟨error, hover⟩ := drive_over s around r (h.manned (.start id query request nowMs))
    obtain ⟨more, hcourse⟩ := Course.drive s none around r h.any
    exact ⟨more, error, hover, hcourse⟩

-- ---------------------------------------------------------------------------
-- A run that is never good enough
-- ---------------------------------------------------------------------------

/-- Whether the step to `x` that a run takes by itself is a contested one. -/
def isContested (r : Run) (x : Surroundings σ × Run) : Bool :=
  !r.cancelled &&
  (match r.phase with
    | .asking .evaluation answer =>
      (verdictOf? answer.outcome).any fun verdict => !verdict.sufficient
    | _ => true) &&
  match r.phase.stage, x.2.phase.stage with
  | .retrying, .over _ => false
  | _, _ => true

/-- The test of a step is sound for what a contested step is asked. -/
theorem contested_of_isContested (hstep : r.step? s around = some x) (h : isContested r x = true) :
    Contested s around r x where
  uncancelled := by
    simp only [isContested, Bool.and_eq_true, Bool.not_eq_true'] at h
    exact h.1.1
  verdict := by
    intro answer hphase
    simp only [isContested, hphase, Bool.and_eq_true, Bool.not_eq_true'] at h
    obtain ⟨⟨hopen, hverdict⟩, -⟩ := h
    obtain ⟨verdict, hsome, hinsufficient⟩ := (Option.any_eq_true _ _).mp hverdict
    refine ⟨answer.outcome, verdict, hsome, by simpa using hinsufficient, ?_⟩
    simp only [step?, hphase, hopen, Bool.false_eq_true, if_false] at hstep
    split at hstep
    · exact (Option.some.inj hstep).symm
    · exact absurd hstep (by simp)
  applied := by
    intro hstage error hover
    have hend : x.2.phase.stage = .over error := by
      rw [hover]
      rfl
    simp [isContested, hstage, hend] at h

/-- A number of steps that a run takes by itself, each of which passes a test, and what it sets
about with them. -/
def taken? (s : Services σ) (test : Run → Surroundings σ × Run → Bool) :
    Nat → Surroundings σ × Run → Option (Run × List Mark)
  | 0, x => some (x.2, [])
  | n + 1, x =>
    match x.2.next? s none x.1 with
    | none => none
    | some y =>
      if test x.2 y then
        (taken? s test n y).map fun end_ => (end_.1, (x.2.phase.mark y.2.phase).toList ++ end_.2)
      else none

/-- The steps that were taken are a course, of steps with what the test vouches for. -/
theorem course_of_taken? {test : Run → Surroundings σ × Run → Bool} {n : Nat} {more : List Mark}
    (htest : ∀ {around r x}, r.step? s around = some x → test r x = true → P around r x)
    (h : taken? s test n (around, r) = some (r', more)) (hcourse : Course s P r₀ r marks) :
    Course s P r₀ r' (marks ++ more) := by
  induction n generalizing around r marks more with
  | zero =>
    obtain ⟨rfl, rfl⟩ := Prod.mk.inj (Option.some.inj h)
    rwa [List.append_nil]
  | succ n ih =>
    unfold taken? at h
    split at h
    · exact absurd h (by simp)
    · rename_i y hnext
      split at h
      · rename_i hpassed
        obtain ⟨⟨q, rest⟩, hrest, heq⟩ := Option.map_eq_some_iff.mp h
        obtain ⟨rfl, rfl⟩ := Prod.mk.inj heq
        obtain ⟨around', hstep⟩ := exists_step?_of_next? hnext
        rw [← List.append_assoc]
        exact ih hrest (hcourse.step (step_of_step? hstep) (htest hstep hpassed))
      · exact absurd h (by simp)

/-- The replies to the questions of a run with one node, of which the evaluator wants more
whatever its arguments are. -/
def doubtingReply : Task → Json
  | .planCreation => .arr [Plan.callJson "echo" "say" []]
  | .retryStrategy => .obj [("action", .str "adjust"), ("adjustments",
      .arr [.obj [("node_id", .str "n-b18338a9b10ee7ce"), ("args", .obj [])]])]
  | .evaluation => .obj [("sufficient", .bool false), ("reason", .str "more")]
  | .directAnswerCheck => .null
  | .directAnswerGeneration => .null
  | .parameterExtraction => .null

def doubtingServices : Services Unit where
  registry := Traversal.echoDispatch.registry
  createClient := fun task world =>
    (.ok ⟨"", "", 0, fun _ world => (⟨0, .ok (doubtingReply task).compact⟩, world)⟩, world)
  rules := fun _ => none
  settings := { Settings.standard with directAnswer := false }

/-- With two retries such a run makes three attempts. -/
theorem retry_budget_doubting :
    ∃ r marks, Course doubtingServices (Contested doubtingServices) (.start "run-1" "q" .empty 0) r
        marks ∧
      marks = [.execution, .evaluation, .strategy, .execution, .evaluation, .strategy, .execution,
        .evaluation] ∧
      r.attempt = 3 ∧ r.retries = 2 ∧
      ∃ why, r.phase = .over (some (.retryBudgetExhausted 3 why)) := by
  have hrun : (taken? doubtingServices isContested 16 (⟨0, (), .start .empty, .withCapacity 1⟩,
      Run.start "run-1" "q" .empty 0)).any (fun reached =>
        decide (reached.2 = [.execution, .evaluation, .strategy, .execution, .evaluation, .strategy,
          .execution, .evaluation]) && reached.1.phase.over?.isSome) = true := by
    decide +kernel
  obtain ⟨⟨r, marks⟩, hreached, htest⟩ := (Option.any_eq_true _ _).mp hrun
  simp only [Bool.and_eq_true, decide_eq_true_eq] at htest
  obtain ⟨hmarks, hphase⟩ := htest
  obtain ⟨error, hsome⟩ := Option.isSome_iff_exists.mp hphase
  have hover := Phase.eq_over_of_over? hsome
  have hcourse := course_of_taken? contested_of_isContested hreached .start
  rw [List.nil_append] at hcourse
  obtain ⟨hbudgeted, hexact, -, -⟩ := retry_budget hcourse
  have hplan : Mark.execution ∈ marks := by
    rw [hmarks]
    decide
  obtain ⟨hexecutions, hstrategies, why, herror⟩ := hexact (fun hstep => hstep) hplan error hover
  exact ⟨r, marks, hcourse, hmarks, hbudgeted.attempt.trans hexecutions,
    hbudgeted.retries.trans hstrategies, why,
    hover.trans (congrArg Phase.over herror)⟩

end Run

end PlanRunner
