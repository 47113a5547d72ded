import PlanRunner.Proofs.Run.Event
import PlanRunner.Proofs.Run.Grace

/-!
# PlanRunner — how a run is conducted

Between two steps of a run the running nodes of its ledger are those with a call in flight;
when no plan is being executed there are none. What follows from any event keeps this, and it
keeps the id of the run and its cancellation. A step asks no language model but the one for the
question that it puts. A run that has been cancelled makes no more calls, neither to layers nor
to language models, whatever follows: nothing new is in flight, the world, into which services
may write every call, stays as it is, and each step is the same with any other clients. And a
run that is carried on without a limit gets to its end.

* `Run.Manned` — what holds of the calls of a run between two steps;
* `Run.Heir` — what any event keeps of a run;
* `Run.Step.heir_or_walked`, `Run.Step.manned` — a step keeps it;
* `Run.Step.withClients` — which language models a step asks;
* `Run.Step.calls_subset`, `Run.Step.world_eq` — a step of a cancelled run makes no call;
* `Run.drive_over` — a run that is carried on without a limit ends.
-/

namespace PlanRunner

/-- With no call in flight, the book is right when it says that nothing runs. -/
theorem Ledger.runs_nil_iff {l : Ledger} : l.Runs [] ↔ l.running = [] := by
  refine ⟨fun h => h.running.eq_nil, fun h => ⟨?_, ?_, ?_⟩⟩
  · rw [h]
    exact .refl _
  · rw [h]
    exact List.nodup_nil
  · rw [h]
    exact fun _ hid => absurd hid List.not_mem_nil

/-- The settings never bound the calls at one time by zero. -/
theorem Settings.permits_ne_zero (s : Settings) : s.permits ≠ some 0 := by
  unfold permits
  split
  · simp
  · rename_i h
    simpa using h

/-- The same services with other clients of language models. -/
def Services.withClients {σ : Type} (s : Services σ)
    (createClient : Task → σ → Except RunError (Client σ) × σ) : Services σ :=
  { s with createClient := createClient }

namespace Services

variable {σ : Type} (s : Services σ) (createClient : Task → σ → Except RunError (Client σ) × σ)

@[simp] theorem withClients_settings : (s.withClients createClient).settings = s.settings := rfl

@[simp] theorem withClients_registry : (s.withClients createClient).registry = s.registry := rfl

@[simp] theorem withClients_rules : (s.withClients createClient).rules = s.rules := rfl

end Services

namespace Run

variable {σ : Type} {s : Services σ} {around : Surroundings σ} {r : Run} {x : Surroundings σ × Run}

/-- The calls of a run that are in flight. -/
def calls (r : Run) : List (Node × Call) :=
  match r.phase with
  | .executing walks _ => Walk.inFlightAll walks
  | .starting _ => []
  | .asking _ _ => []
  | .over _ => []

/-- While the tree is executed, the calls of the run are those of its walks. -/
theorem calls_of_executing {walks : List Walk} {ticket : Nat} (h : r.phase = .executing walks ticket) :
    r.calls = Walk.inFlightAll walks := by
  rw [calls, h]

/-- Whether a run executes its plan. -/
def IsExecuting (r : Run) : Prop := ∃ walks ticket, r.phase = .executing walks ticket

/-- Outside the execution of the tree a run has no calls. -/
theorem calls_of_not_executing (h : ¬ r.IsExecuting) : r.calls = [] := by
  unfold calls
  split
  · rename_i walks ticket hphase
    exact absurd ⟨walks, ticket, hphase⟩ h
  · rfl
  · rfl
  · rfl

/-- Where an execution is at its end, or there is none, no call is in flight. -/
theorem calls_eq_nil (h : ∀ walks ticket, r.phase = .executing walks ticket →
    walks.all Walk.isDone = true) : r.calls = [] := by
  by_cases hexecuting : r.IsExecuting
  · obtain ⟨walks, ticket, hphase⟩ := hexecuting
    rw [calls_of_executing hphase]
    exact Walk.inFlightAll_done (h walks ticket hphase)
  · exact calls_of_not_executing hexecuting

/-- A call in flight belongs to an execution. -/
theorem executing_of_mem_calls {c : Node × Call} (h : c ∈ r.calls) : r.IsExecuting := by
  by_contra hnot
  rw [calls_of_not_executing hnot] at h
  exact absurd h List.not_mem_nil

/-- What holds of the calls of a run between two steps: they are those of the running nodes,
and the walks through the plan can go on. -/
structure Manned (r : Run) : Prop where
  runs : r.ledger.Runs r.calls
  live : ∀ {walks ticket}, r.phase = .executing walks ticket → Walk.LiveAll walks

/-- At the end of an execution no call is in flight. -/
theorem Executed.calls (h : r.Executed) : r.calls = [] := by
  obtain ⟨-, walks, ticket, hphase, hdone⟩ := h
  rw [calls_of_executing hphase, Walk.inFlightAll_done hdone]

/-- Outside an execution a run is manned when nothing is marked as running. -/
theorem Manned.of_idle (hrunning : r.ledger.running = []) (h : ¬ r.IsExecuting) : r.Manned where
  runs := by
    rw [calls_of_not_executing h]
    exact Ledger.runs_nil_iff.mpr hrunning
  live := fun hphase => absurd ⟨_, _, hphase⟩ h

/-- Without an execution there is no running node. -/
theorem Manned.idle (hr : r.Manned) (h : r.calls = []) : r.ledger.running = [] :=
  Ledger.runs_nil_iff.mp (h ▸ hr.runs)

theorem Manned.start (id query : String) (request : Facts) (nowMs : Nat) :
    (Run.start id query request nowMs).Manned :=
  .of_idle rfl fun ⟨_, _, hphase⟩ => Phase.noConfusion hphase

/-- A cancellation ends no call by itself. -/
theorem Manned.cancel (hr : r.Manned) (nowMs : Nat) : (r.cancel nowMs).Manned :=
  ⟨hr.runs, hr.live⟩

-- ---------------------------------------------------------------------------
-- What follows from each event
-- ---------------------------------------------------------------------------

/-- What any event keeps of a run, and that it starts no layer call: an execution begins with
the roots of the plan, none of which has been looked at. -/
structure Heir (around : Surroundings σ) (r : Run) (x : Surroundings σ × Run) : Prop where
  id : x.2.id = r.id
  cancelledAt : x.2.cancelledAt = r.cancelledAt
  world : r.cancelled = true → x.1.world = around.world
  running : r.ledger.running = [] → x.2.ledger.running = []
  fresh : ∀ {walks ticket}, x.2.phase = .executing walks ticket →
    walks = x.2.planOrEmpty.roots.map fun root => .fresh root none none

/-- What follows a step outside the execution has no call in flight. -/
theorem Heir.calls (h : Heir around r x) : x.2.calls = [] := by
  by_cases hexecuting : x.2.IsExecuting
  · obtain ⟨walks, ticket, hphase⟩ := hexecuting
    rw [calls_of_executing hphase, h.fresh hphase]
    exact Walk.inFlightAll_fresh none _
  · exact calls_of_not_executing hexecuting

/-- It stays manned if nothing was running. -/
theorem Heir.manned (h : Heir around r x) (hrunning : r.ledger.running = []) : x.2.Manned where
  runs := by
    rw [h.calls]
    exact Ledger.runs_nil_iff.mpr (h.running hrunning)
  live := by
    intro walks ticket hphase
    rw [h.fresh hphase]
    exact Walk.liveAll_fresh _ none

/-- A run that ends after its text, its log or the outcomes of no node have changed. -/
theorem conclude_heir (around : Surroundings σ) {r q : Run} (error : Option RunError)
    (hid : q.id = r.id) (hcancelled : q.cancelledAt = r.cancelledAt)
    (hrunning : q.ledger.running = r.ledger.running) : Heir around r (around, q.conclude error) where
  id := hid
  cancelledAt := hcancelled
  world := fun _ => rfl
  running := hrunning.trans
  fresh := fun hphase => Phase.noConfusion hphase

/-- A run that puts a question after such a change. If it has been cancelled, nobody is asked. -/
theorem ask_heir (s : Services σ) {around around' : Surroundings σ} {r q : Run} {question : Question}
    {body : String} (hworld : around'.world = around.world) (hid : q.id = r.id)
    (hcancelled : q.cancelledAt = r.cancelledAt) (hrunning : q.ledger.running = r.ledger.running) :
    Heir around r (ask s around' q question body) := by
  obtain ⟨answer, hask⟩ := exists_ask s around' q question body
  -- a question changes the phase alone, and of the world only what its client did
  refine ⟨?_, ?_, fun hcancel => ?_, ?_, ?_⟩
  · rw [hask]
    exact hid
  · rw [hask]
    exact hcancelled
  · have hq : q.cancelled = true := by
      rw [cancelled, hcancelled]
      exact hcancel
    rw [ask, if_pos hq]
    exact hworld
  · rw [hask]
    exact hrunning.trans
  · rw [hask]
    exact fun hphase => Phase.noConfusion hphase

theorem adopt_heir (around : Surroundings σ) (plan : Plan) {ledger : Ledger}
    (hledger : r.ledger.running = [] → ledger.running = []) :
    Heir around r (adopt around r plan ledger) where
  id := rfl
  cancelledAt := rfl
  world := fun _ => rfl
  running := hledger
  fresh := by
    intro walks ticket hphase
    obtain ⟨rfl, -⟩ := Phase.executing.inj hphase
    rfl

/-- A plan is taken over with a ledger in which no node runs, if none did before. -/
theorem Adopts.running {plan : Plan} {ledger : Ledger} (h : Adopts r plan ledger)
    (hrunning : r.ledger.running = []) : ledger.running = [] := by
  cases h with
  | planned _ _ => rfl
  | replanned _ _ hreplan =>
    obtain ⟨_, _, -, -, -, rfl⟩ := replan_eq_again_iff.mp hreplan
    rfl
  | adjusted _ =>
    rw [(Adjusting.finish_agrees _ _ _).running, Ledger.reset, hrunning]
    rfl

-- ---------------------------------------------------------------------------
-- Steps
-- ---------------------------------------------------------------------------

/-- Publishing does nothing to the world. -/
theorem publishAll_world (around : Surroundings σ) (r : Run) (ledgers : List Ledger) :
    (publishAll around r ledgers).world = around.world := by
  induction ledgers generalizing around with
  | nil => rfl
  | cons ledger ledgers ih => exact ih (publish around { r with ledger := ledger })

/-- What a turn of an execution does for the run. -/
theorem exists_does_of_turn {walks walks' : List Walk} {ticket : Nat} {sh : Shared σ}
    (h : Traversal.Turn s.dispatch ⟨walks, r.shared around ticket⟩ ⟨walks', sh⟩) :
    ∃ deed, Walk.Does s.dispatch (r.shared around ticket) sh (Walk.inFlightAll walks)
      (Walk.inFlightAll walks') deed := by
  obtain ⟨deed, hdoes, -⟩ := h.does
  exact ⟨deed, hdoes⟩

/-- A step other than a turn of an execution keeps what any event keeps; before it no call is
in flight. -/
theorem Step.heir_or_walked (h : r.Step s around x) :
    (Heir around r x ∧ r.calls = []) ∨
      ∃ walks walks' ticket sh, r.phase = .executing walks ticket ∧
        Traversal.Turn s.dispatch ⟨walks, r.shared around ticket⟩ ⟨walks', sh⟩ ∧
        x = r.walked around walks' sh := by
  -- only an execution that is not at its end has calls in flight
  have hidle : r.phase.stage ≠ .executing → r.calls = [] := fun hstage =>
    calls_eq_nil fun _ _ hphase => absurd (congrArg Phase.stage hphase) hstage
  have hjudged : ∀ {q : Run} {verdict : Verdict}, Judges s r q verdict → r.calls = [] := by
    intro q verdict hjudges
    cases hjudges with
    | reply hphase _ => exact hidle (by rw [hphase]; nofun)
    | failures hexecuted _ _ => exact hexecuted.calls
  obtain ⟨m, hevent⟩ := h.event
  cases hevent with
  | asks context body hraises hlogs =>
    refine .inl ⟨ask_heir s rfl rfl rfl rfl, hidle ?_⟩
    rw [hraises.stage]
    cases hraises <;> nofun
  | breaksOff error hend hdone => exact .inl ⟨conclude_heir around _ rfl rfl rfl, calls_eq_nil hdone⟩
  | stops reason why hstage =>
    exact .inl ⟨conclude_heir around _ rfl rfl rfl, hidle (by rw [hstage]; nofun)⟩
  | answersDirectly text hphase =>
    exact .inl ⟨conclude_heir around _ rfl rfl rfl, hidle (by rw [hphase]; nofun)⟩
  | adopts hadopts =>
    refine .inl ⟨adopt_heir around _ hadopts.running, hidle ?_⟩
    rcases hadopts.stage with hstage | hstage <;> rw [hstage] <;> nofun
  | walks hphase hturn => exact .inr ⟨_, _, _, _, hphase, hturn, rfl⟩
  | consults hexecuted hpolicy => exact .inl ⟨ask_heir s rfl rfl rfl rfl, hexecuted.calls⟩
  | accepts hjudges hsufficient =>
    have hcalls := hjudged hjudges
    obtain ⟨text, rfl⟩ := hjudges.exists_eq
    exact .inl ⟨conclude_heir around _ rfl rfl rfl, hcalls⟩
  | exhausts hjudges hinsufficient hspent =>
    have hcalls := hjudged hjudges
    obtain ⟨text, rfl⟩ := hjudges.exists_eq
    exact .inl ⟨conclude_heir around _ rfl rfl rfl, hcalls⟩
  | reconsiders hjudges hinsufficient hleft body =>
    have hcalls := hjudged hjudges
    obtain ⟨text, rfl⟩ := hjudges.exists_eq
    exact .inl ⟨ask_heir s rfl rfl rfl rfl, hcalls⟩

/-- No step renames its run. -/
theorem Step.id_eq (h : r.Step s around x) : x.2.id = r.id := by
  rcases h.heir_or_walked with ⟨hheir, -⟩ | ⟨_, _, _, _, -, -, rfl⟩
  · exact hheir.id
  · rfl

/-- Only the engine cancels a run; its own steps keep the time it was cancelled at. -/
theorem Step.cancelledAt_eq (h : r.Step s around x) : x.2.cancelledAt = r.cancelledAt := by
  rcases h.heir_or_walked with ⟨hheir, -⟩ | ⟨_, _, _, _, -, -, rfl⟩
  · exact hheir.cancelledAt
  · rfl

/-- A step keeps what holds of the calls of a run. -/
theorem Step.manned (h : r.Step s around x) (hr : r.Manned) : x.2.Manned := by
  rcases h.heir_or_walked with ⟨hheir, hidle⟩ | ⟨walks, walks', ticket, sh, hphase, hturn, rfl⟩
  · exact hheir.manned (hr.idle hidle)
  · obtain ⟨deed, hdoes⟩ := exists_does_of_turn hturn
    have hruns := hr.runs
    rw [calls_of_executing hphase] at hruns
    refine ⟨hdoes.runs hruns, fun hphase' => ?_⟩
    obtain ⟨rfl, -⟩ := Phase.executing.inj hphase'
    exact hturn.live (hr.live hphase)

/-- A step of a cancelled run puts no call in flight. -/
theorem Step.calls_subset (h : r.Step s around x) (hcancel : r.cancelled = true) :
    x.2.calls ⊆ r.calls := by
  rcases h.heir_or_walked with ⟨hheir, hidle⟩ | ⟨walks, walks', ticket, sh, hphase, hturn, rfl⟩
  · rw [hheir.calls]
    exact List.nil_subset _
  · obtain ⟨deed, hdoes⟩ := exists_does_of_turn hturn
    rw [calls_of_executing hphase]
    exact (hdoes.of_cancelled hcancel).1

/-- A step of a cancelled run leaves the world as it is. -/
theorem Step.world_eq (h : r.Step s around x) (hcancel : r.cancelled = true) :
    x.1.world = around.world := by
  rcases h.heir_or_walked with ⟨hheir, -⟩ | ⟨walks, walks', ticket, sh, -, hturn, rfl⟩
  · exact hheir.world hcancel
  · obtain ⟨deed, hdoes⟩ := exists_does_of_turn hturn
    exact (publishAll_world _ _ _).trans (hdoes.of_cancelled hcancel).2

/-- With a step a call stays in flight, or its node gets its own outcome or that it was
abandoned. -/
theorem Step.ends (h : r.Step s around x) {c : Node × Call} (hc : c ∈ r.calls) :
    c ∈ x.2.calls ∨ ∃ outcome, (outcome = c.2.outcome ∨
      outcome = .error (.abandoned c.1.layer c.1.function s.settings.cancelGraceMs)) ∧
        x.2.ledger.Holds c.1.id outcome := by
  rcases h.heir_or_walked with ⟨-, hidle⟩ | ⟨walks, walks', ticket, sh, hphase, hturn, rfl⟩
  · rw [hidle] at hc
    exact absurd hc List.not_mem_nil
  · obtain ⟨deed, hdoes⟩ := exists_does_of_turn hturn
    rw [calls_of_executing hphase] at hc
    exact hdoes.ends hc

-- ---------------------------------------------------------------------------
-- Whom a run asks
-- ---------------------------------------------------------------------------

variable {createClient : Task → σ → Except RunError (Client σ) × σ}

/-- Whether other clients are nothing to what follows for a run: it has been cancelled, or the
client for the question that it puts is the same. -/
def Indifferent (s : Services σ) (createClient : Task → σ → Except RunError (Client σ) × σ)
    (r : Run) (x : Surroundings σ × Run) : Prop :=
  r.cancelled = true ∨ ∀ question answer, x.2.phase = .asking question answer →
    createClient question.task = s.createClient question.task

/-- A question that no client of the task is made for is put in the same way with any clients. -/
theorem ask_withClients {question : Question} {body : String}
    (h : Indifferent s createClient r (ask s around r question body)) :
    ask (s.withClients createClient) around r question body = ask s around r question body := by
  rcases h with hcancel | hsame
  · unfold ask
    simp only [if_pos hcancel]
  · obtain ⟨answer, hphase⟩ := ask_phase s around r question body
    have hclient := hsame question answer hphase
    unfold ask
    simp only [Services.withClients, hclient]

/-- The first step looks at the clients only to put its question. -/
theorem begin_withClients {request : Facts}
    (h : Indifferent s createClient r (begin s around r request)) :
    begin (s.withClients createClient) around r request = begin s around r request := by
  have hlogged : ∀ (refreshed : Bool) {x : Surroundings σ × Run}, Indifferent s createClient r x →
      Indifferent s createClient (if refreshed then r.log "Project context refreshed" else r) x := by
    intro refreshed x h
    cases refreshed with
    | false => exact h
    | true => exact h
  revert h
  unfold begin askPlan
  simp only [Services.withClients_settings, Services.withClients_registry, Services.withClients_rules]
  by_cases hdirect : s.settings.directAnswer = true
  · simp only [hdirect, if_true]
    exact fun h => ask_withClients (hlogged _ h)
  · simp only [hdirect]
    exact fun h => ask_withClients (hlogged _ h)

/-- A verdict looks at the clients only to ask for a strategy. -/
theorem judged_withClients {verdict : Verdict}
    (h : Indifferent s createClient r (judged s around r verdict)) :
    judged (s.withClients createClient) around r verdict = judged s around r verdict := by
  revert h
  unfold judged
  simp only [Services.withClients_settings]
  split
  · exact fun _ => rfl
  · by_cases hspent : s.settings.maxRetries ≤ r.retries
    · simp only [log, hspent, if_true, implies_true]
    · simp only [log, hspent, if_false]
      exact fun h => ask_withClients h

/-- An adjustment looks at the clients only to ask for arguments. -/
theorem adjust_withClients {reason : String} {named : List String} {next : AdjustStep}
    (h : Indifferent s createClient r (adjust s around r reason named next)) :
    adjust (s.withClients createClient) around r reason named next =
      adjust s around r reason named next := by
  cases next with
  | finished plan resets => rfl
  | stopped why => rfl
  | asks state node instruction => exact ask_withClients h

/-- A retry looks at the clients only if it is an adjustment. -/
theorem retry_withClients {reason : String} {action : RetryAction}
    (h : Indifferent s createClient r (retry s around r reason action)) :
    retry (s.withClients createClient) around r reason action = retry s around r reason action := by
  cases action with
  | stop why => rfl
  | replan nodeId subtree => rfl
  | adjust adjustments => exact adjust_withClients h

/-- An answer looks at the clients only to put the question it leads to. -/
theorem answered_withClients {question : Question} {outcome : Except RunError String}
    (h : Indifferent s createClient r (answered s around r question outcome)) :
    answered (s.withClients createClient) around r question outcome =
      answered s around r question outcome := by
  revert h
  unfold answered askPlan
  -- only the answers that lead to a question look at the clients at all
  split
  · exact fun _ => rfl
  · split
    · exact fun h => ask_withClients h
    · exact fun h => ask_withClients h
  · exact fun h => ask_withClients h
  · exact fun _ => rfl
  · exact fun _ => rfl
  · exact fun _ => rfl
  · exact fun _ => rfl
  · exact fun h => judged_withClients h
  · exact fun h => judged_withClients h
  · exact fun h => retry_withClients h
  · exact fun _ => rfl
  · exact fun h => adjust_withClients h
  · exact fun _ => rfl

/-- The end of an execution looks at the clients only to ask for a verdict. -/
theorem executed_withClients (h : Indifferent s createClient r (executed s around r)) :
    executed (s.withClients createClient) around r = executed s around r := by
  revert h
  unfold executed
  simp only [Services.withClients_settings]
  split
  · exact fun _ => rfl
  · by_cases hstrict : s.settings.failurePolicy = .strict ∧ r.ledger.failures ≠ []
    · simp only [hstrict, ne_eq, not_false_eq_true, and_self, if_true]
      exact fun h => judged_withClients h
    · simp only [hstrict, if_false]
      exact fun h => ask_withClients h

/-- A step asks no language model but the one for the question that it puts, and none if the
run has been cancelled. -/
theorem Step.withClients (h : r.Step s around x) (hsame : Indifferent s createClient r x) :
    r.Step (s.withClients createClient) around x := by
  cases h with
  | @begin request hphase =>
    have hstep : r.Step (s.withClients createClient) around _ := .begin hphase
    rwa [begin_withClients hsame] at hstep
  | @answered question answer hphase outcome =>
    have hstep : r.Step (s.withClients createClient) around _ := .answered hphase outcome
    rwa [answered_withClients hsame] at hstep
  -- the parts of the tree call layers, not language models
  | walked hphase hturn => exact .walked hphase hturn
  | executed hphase hdone =>
    have hstep : r.Step (s.withClients createClient) around _ := .executed hphase hdone
    rwa [executed_withClients hsame] at hstep

-- ---------------------------------------------------------------------------
-- A cancelled execution
-- ---------------------------------------------------------------------------

/-- A step of an execution that has been cancelled belongs to the same attempt, or ends the
run as cancelled. -/
theorem Step.of_cancelled_executing (h : r.Step s around x) (hcancel : r.cancelled = true)
    (hphase : r.IsExecuting) :
    x.2.attempt = r.attempt ∧ x.2.resultText = r.resultText ∧
      (x.2.IsExecuting ∨ x.2.phase = .over (some .cancelled)) := by
  obtain ⟨walks, ticket, hphase⟩ := hphase
  cases h with
  | begin hphase' => exact Phase.noConfusion (hphase.symm.trans hphase')
  | answered hphase' _ => exact Phase.noConfusion (hphase.symm.trans hphase')
  | walked _ _ => exact ⟨rfl, rfl, .inl ⟨_, _, rfl⟩⟩
  | executed _ _ =>
    rw [Run.executed, if_pos hcancel]
    exact ⟨rfl, rfl, .inr rfl⟩

/-- What the ledger of a cancelled execution holds of a node stays. -/
theorem Step.holds (h : r.Step s around x) (hr : r.Manned) (hcancel : r.cancelled = true)
    (hphase : r.IsExecuting) {id : String} {outcome : Except LayerError Value}
    (hold : r.ledger.Holds id outcome) : x.2.ledger.Holds id outcome := by
  obtain ⟨walks, ticket, hphase⟩ := hphase
  cases h with
  | begin hphase' => exact Phase.noConfusion (hphase.symm.trans hphase')
  | answered hphase' _ => exact Phase.noConfusion (hphase.symm.trans hphase')
  | walked hphase' hturn =>
    -- a turn ends one call at most, and a call it does not end is still held
    obtain ⟨deed, hdoes⟩ := exists_does_of_turn hturn
    have hruns := hr.runs
    rw [calls_of_executing hphase'] at hruns
    exact hdoes.holds hruns hold
  | executed _ _ =>
    rw [Run.executed, if_pos hcancel]
    exact hold

/-- A step of a run with a call in flight is one of the walks. -/
theorem exists_stepAll?_of_step? (h : r.step? s around = some x) {c : Node × Call}
    (hc : c ∈ r.calls) :
    ∃ walks walks' ticket sh, r.phase = .executing walks ticket ∧
      Walk.stepAll? s.dispatch (r.shared around ticket) walks = some (walks', sh) ∧
      x = r.walked around walks' sh := by
  obtain ⟨walks, ticket, hphase⟩ := executing_of_mem_calls hc
  rw [calls_of_executing hphase] at hc
  simp only [step?, hphase] at h
  split at h
  · rename_i hdone
    rw [Walk.inFlightAll_done hdone] at hc
    exact absurd hc List.not_mem_nil
  · split at h
    · rename_i walks' sh hstep
      exact ⟨walks, walks', ticket, sh, hphase, hstep, (Option.some.inj h).symm⟩
    · exact absurd h (by simp)

/-- The step that is really taken after a cancellation ends a call with its own outcome if
that arrives within the grace period and has arrived, and as abandoned only if the grace
period is over before that. -/
theorem step?_onTime (h : r.step? s around = some x) {t : Nat} (hcancel : r.cancelledAt = some t)
    {c : Node × Call} (hc : c ∈ r.calls) :
    c ∈ x.2.calls ∨
      (c.2.dueMs ≤ t + s.settings.cancelGraceMs ∧ c.2.dueMs ≤ around.nowMs ∧
        x.2.ledger.Holds c.1.id c.2.outcome) ∨
      (t + s.settings.cancelGraceMs < c.2.dueMs ∧ t + s.settings.cancelGraceMs ≤ around.nowMs ∧
        x.2.ledger.Holds c.1.id
          (.error (.abandoned c.1.layer c.1.function s.settings.cancelGraceMs))) := by
  obtain ⟨walks, walks', ticket, sh, hphase, hstep, rfl⟩ := exists_stepAll?_of_step? h hc
  rw [calls_of_executing hphase] at hc
  rcases Walk.stepAll?_onTime hstep hc with hstays | ⟨hdue, hold⟩
  · exact .inl hstays
  · right
    have hnow : min c.2.dueMs (t + s.settings.cancelGraceMs) ≤ around.nowMs := by
      rwa [Walk.endsAt_of_cancelled hcancel] at hdue
    rw [Walk.ending_of_cancelled hcancel] at hold
    change Ledger.Holds _ _ (if c.2.dueMs ≤ t + s.settings.cancelGraceMs then _ else _) at hold
    -- whichever comes first: the call is due, or its grace is over
    by_cases hgrace : c.2.dueMs ≤ t + s.settings.cancelGraceMs
    · rw [if_pos hgrace] at hold
      rw [Nat.min_eq_left hgrace] at hnow
      exact .inl ⟨hgrace, hnow, hold⟩
    · rw [if_neg hgrace] at hold
      rw [Nat.min_eq_right (Nat.le_of_not_le hgrace)] at hnow
      exact .inr ⟨Nat.lt_of_not_le hgrace, hnow, hold⟩

/-- Where a cancelled run waits with a call in flight, the grace period is not over. -/
theorem lt_of_step?_eq_none (h : r.step? s around = none) {t : Nat} (hcancel : r.cancelledAt = some t)
    {c : Node × Call} (hc : c ∈ r.calls) :
    around.nowMs < c.2.dueMs ∧ around.nowMs < t + s.settings.cancelGraceMs := by
  obtain ⟨walks, ticket, hphase⟩ := executing_of_mem_calls hc
  rw [calls_of_executing hphase] at hc
  simp only [step?, hphase] at h
  split at h
  · exact absurd h (by simp)
  · split at h
    · exact absurd h (by simp)
    · rename_i hstep
      -- no walk can step, so the call has neither ended nor run out of grace
      have hlt := Walk.lt_endsAt_of_stepAll?_eq_none hstep hc
      rw [Walk.endsAt_of_cancelled hcancel] at hlt
      exact Nat.lt_min.mp hlt

-- ---------------------------------------------------------------------------
-- A run gets to its end
-- ---------------------------------------------------------------------------

/-- The next step up to a moment is one that is taken now, or after a while. -/
theorem exists_step?_of_next? {limit : Option Nat} (h : r.next? s limit around = some x) :
    ∃ around', r.step? s around' = some x := by
  unfold Run.next? at h
  -- a step that is due now, or one that is due once the clock is moved on
  split at h
  · rename_i hstep
    rw [h] at hstep
    exact ⟨_, hstep⟩
  · split at h
    · exact absurd h (by simp)
    · split at h
      · exact ⟨_, h⟩
      · exact absurd h (by simp)

/-- So it is a step of the run. -/
theorem exists_step_of_next? {limit : Option Nat} (h : r.next? s limit around = some x) :
    ∃ around', r.Step s around' x := by
  obtain ⟨around', hstep⟩ := exists_step?_of_next? h
  exact ⟨around', step_of_step? hstep⟩

/-- Without a limit only a run that is over does not go on: an answer is waited for, and
where an execution takes no step it waits for a call. -/
theorem over_of_next?_eq_none (hr : r.Manned) (h : r.next? s none around = none) :
    ∃ error, r.phase = .over error := by
  -- once it has waited long enough, the run takes a step
  have hwait : r.step? s around = none ∧ ∀ t, r.due? s around = some t →
      r.step? s { around with nowMs := max around.nowMs t } = none := by
    unfold Run.next? at h
    split at h
    · exact absurd h (by simp)
    · rename_i hstep
      refine ⟨hstep, fun t hdue => ?_⟩
      rw [hdue] at h
      simpa using h
  obtain ⟨hnow, hlater⟩ := hwait
  match hphase : r.phase with
  | .over error => exact ⟨error, rfl⟩
  | .starting request => simp [step?, hphase] at hnow
  | .asking question answer =>
    have hstep := hlater answer.dueMs (by simp [due?, hphase])
    simp only [step?, hphase] at hstep
    split at hstep
    · exact absurd hstep (by simp)
    · rw [if_pos (Nat.le_max_right _ _)] at hstep
      exact absurd hstep (by simp)
  | .executing walks ticket =>
    simp only [step?, hphase] at hnow
    split at hnow
    · exact absurd hnow (by simp)
    · rename_i hleft
      split at hnow
      · exact absurd hnow (by simp)
      · rename_i hstep
        -- what takes no step and is not over has a call in flight
        have hcall : Walk.inFlightAll walks ≠ [] := by
          intro hidle
          obtain ⟨t, htakes⟩ := Traversal.exists_takes_of_idle (d := s.dispatch)
            (t := ⟨walks, r.shared around ticket⟩) s.settings.permits_ne_zero (hr.live hphase) hidle
            (Bool.eq_false_iff.mpr hleft)
          exact absurd (hstep.symm.trans htakes) (by simp)
        cases hnext : Walk.nextEndAll? s.dispatch (r.shared around ticket) walks with
        | none => exact absurd ((Walk.nextEndAll?_spec _ _ _).1 hnext) hcall
        | some t =>
          have hstuck := hlater t (by simp [due?, hphase, hnext])
          simp only [step?, hphase, hleft, Bool.false_eq_true, if_false] at hstuck
          have hmoves := Walk.stepAll?_ne_none_of_nextEndAll? hnext (Nat.le_max_right around.nowMs t)
          split at hstuck
          · exact absurd hstuck (by simp)
          · rename_i hnone
            exact absurd hnone hmoves

/-- A run that is carried on without a limit ends. -/
theorem drive_over (s : Services σ) (around : Surroundings σ) (r : Run) (hr : r.Manned) :
    ∃ error, (r.drive s none around).2.phase = .over error := by
  induction around, r using Run.drive.induct s none with
  | case1 around r hnext =>
    rw [drive_of_next?_eq_none hnext]
    exact over_of_next?_eq_none hr hnext
  | case2 around r around' r' hnext ih =>
    obtain ⟨later, hstep⟩ := exists_step_of_next? hnext
    rw [drive_of_next?_eq_some hnext]
    exact ih (hstep.manned hr)

end Run

end PlanRunner
