import PlanRunner.Proofs.Engine.Coherence
import PlanRunner.Proofs.Run.Lockstep

/-!
# PlanRunner — a check that does not answer leaves no trace

Before it asks for a plan, a run may ask whether the query can be answered directly. Where the
answer is not a yes, or does not come, the run goes on as if it had not asked. The two runs, with
and without the check, are followed side by side from the moment in which both ask for a plan. By
then the first one is some time behind, and has a line in its log if the check failed; apart from
that only the world remembers the check.

* `Script`, `Scene` — language models that follow a script, beside a world in which layers act;
* `Run.drive_of_declined` — two runs of which only the first makes the check;
* `Engine.execute_eq_finish` — an execution is a run carried on from its start and then filed;
* `Engine.declined_check_transparent` — the two executions end alike.
-/

namespace PlanRunner

-- ---------------------------------------------------------------------------
-- Language models that follow a script
-- ---------------------------------------------------------------------------

/-- What a script says about one call. -/
inductive Cue where
  /-- No client can be created. -/
  | refuses (e : RunError)
  /-- A client is created, and its answer takes some milliseconds. -/
  | answers (waitMs : Nat) (outcome : Except ProviderError String)

/-- What a run gets to know of a call. -/
def Cue.outcome : Cue → Except RunError String
  | .refuses e => .error e
  | .answers _ outcome => outcome.mapError .provider

def Cue.waitMs : Cue → Nat
  | .refuses _ => 0
  | .answers waitMs _ => waitMs

/-- What language models do: for each task how long their prompts may be, and what comes of the
first call, the second, and so on. -/
structure Script where
  contextLength : Task → Nat
  cue : Task → Nat → Cue

/-- A world in which layers act, and the calls to language models that have been made beside it. -/
structure Scene (τ : Type) where
  outside : τ
  /-- How many calls there have been for each task. -/
  calls : Task → Nat
  /-- The prompts that were sent, in order. -/
  prompts : List (Task × String)

variable {τ : Type}

namespace Scene

def call (scene : Scene τ) (task : Task) : Scene τ :=
  { scene with calls := Function.update scene.calls task (scene.calls task + 1) }

def send (scene : Scene τ) (task : Task) (prompt : String) : Scene τ :=
  { scene with prompts := scene.prompts ++ [(task, prompt)] }

/-- The prompts for all tasks but the check whether a query can be answered directly. -/
def otherPrompts (scene : Scene τ) : List (Task × String) :=
  scene.prompts.filter fun p => p.1 ≠ .directAnswerCheck

/-- Scenes that differ in what that check has left, at most. -/
structure Alike (v w : Scene τ) : Prop where
  outside : v.outside = w.outside
  calls : ∀ task, task ≠ .directAnswerCheck → v.calls task = w.calls task
  prompts : v.otherPrompts = w.otherPrompts

/-- Counting a call of one task keeps scenes alike. -/
theorem Alike.call {v w : Scene τ} (h : Alike v w) (task : Task) :
    Alike (v.call task) (w.call task) where
  outside := h.outside
  calls other hother := by
    by_cases htask : other = task
    · subst htask
      simp only [Scene.call, Function.update_self, h.calls other hother]
    · simp only [Scene.call, Function.update_of_ne htask, h.calls other hother]
  prompts := h.prompts

/-- Noting a prompt of one task keeps scenes alike. -/
theorem Alike.send {v w : Scene τ} (h : Alike v w) (task : Task) (prompt : String) :
    Alike (v.send task prompt) (w.send task prompt) where
  outside := h.outside
  calls := h.calls
  prompts := by
    have hprompts := h.prompts
    unfold otherPrompts at hprompts ⊢
    rw [Scene.send, Scene.send, List.filter_append, List.filter_append, hprompts]

/-- The check counts among its own calls only. -/
theorem call_check_alike (scene : Scene τ) : Alike (scene.call .directAnswerCheck) scene where
  outside := rfl
  calls task htask := by simp only [Scene.call, Function.update_of_ne htask]
  prompts := rfl

/-- The prompt of the check counts among its own prompts only. -/
theorem send_check_alike (scene : Scene τ) (prompt : String) :
    Alike (scene.send .directAnswerCheck prompt) scene where
  outside := rfl
  calls _ _ := rfl
  prompts := by simp [otherPrompts, Scene.send]

theorem Alike.trans {u v w : Scene τ} (h : Alike u v) (h' : Alike v w) : Alike u w where
  outside := h.outside.trans h'.outside
  calls task htask := (h.calls task htask).trans (h'.calls task htask)
  prompts := h.prompts.trans h'.prompts

end Scene

/-- A layer of the world outside, in a scene. -/
def Layer.onScene (l : Layer τ) : Layer (Scene τ) where
  description := l.description
  functions := l.functions
  invoke function args scene :=
    let (reply, outside) := l.invoke function args scene.outside
    (reply, { scene with outside := outside })

def Registry.onScene (registry : Registry τ) : Registry (Scene τ) :=
  ⟨registry.layers.map fun (name, l) => (name, l.onScene)⟩

namespace Script

def client (script : Script) (task : Task) (waitMs : Nat)
    (outcome : Except ProviderError String) : Client (Scene τ) where
  provider := "scripted"
  model := "scripted-model"
  contextLength := script.contextLength task
  complete prompt scene := (⟨waitMs, outcome⟩, scene.send task prompt)

def createClient (script : Script) (task : Task) (scene : Scene τ) :
    Except RunError (Client (Scene τ)) × Scene τ :=
  match script.cue task (scene.calls task) with
  | .refuses e => (.error e, scene.call task)
  | .answers waitMs outcome => (.ok (script.client task waitMs outcome), scene.call task)

/-- Layers and a script to carry out runs with. -/
def services (script : Script) (registry : Registry τ) (rules : RulesSource) (settings : Settings) :
    Services (Scene τ) where
  registry := registry.onScene
  createClient := script.createClient
  rules := rules
  settings := settings

end Script

/-- Layers see the world inside the scene, and not what was asked. -/
theorem Registry.onScene_blind (registry : Registry τ) : registry.onScene.Blind Scene.Alike := by
  intro name function args v w h
  unfold Registry.invoke
  rw [Registry.get?, Registry.onScene, field?_map]
  cases field? name registry.layers with
  | none => exact ⟨rfl, h⟩
  | some l =>
    simp only [Option.map_some, Layer.onScene, h.outside]
    exact ⟨trivial, ⟨rfl, h.calls, h.prompts⟩⟩

/-- Layers do not see the scene around their world, and a script goes on for each task by itself. -/
theorem Script.services_blind (script : Script) (registry : Registry τ) (rules : RulesSource)
    (settings : Settings) : (script.services registry rules settings).Blind Scene.Alike where
  registry := registry.onScene_blind
  client task htask v w h := by
    show (script.createClient task v).1 = (script.createClient task w).1 ∧
      (script.createClient task v).2.Alike (script.createClient task w).2
    unfold createClient
    rw [h.calls task htask]
    split
    · exact ⟨rfl, h.call task⟩
    · exact ⟨rfl, h.call task⟩
  complete task _ u client hclient prompt v w h := by
    change (script.createClient task u).1 = .ok client at hclient
    unfold createClient at hclient
    split at hclient
    · exact absurd hclient (by simp)
    · obtain rfl := Except.ok.inj hclient
      exact ⟨rfl, h.send task prompt⟩

-- ---------------------------------------------------------------------------
-- The check
-- ---------------------------------------------------------------------------

/-- The check came to something else than a yes: another answer, or a failure. A cancellation is
neither. -/
def Declined : Except RunError String → Prop
  | .ok reply => saysYes reply = false
  | .error e => e ≠ .cancelled

/-- What the check leaves in the log. -/
def checkLines : Except RunError String → List String
  | .ok _ => []
  | .error e => [s!"Direct answer check failed: {e.message}"]

namespace Run

variable {σ : Type} {Same : σ → σ → Prop} {s : Services σ} {around : Surroundings σ} {r : Run}

/-- A run before its first question, and what is around it then. -/
def prepared (s : Services σ) (around : Surroundings σ) (r : Run) (request : Facts) :
    Surroundings σ × Run :=
  ({ around with context := (around.context.apply s.rules request).2 },
    if (around.context.apply s.rules request).1 then r.log "Project context refreshed" else r)

def checkBody (s : Services σ) (r : Run) : String :=
  Prompt.directAnswerCheck r.query s.registry.describe

/-- With direct answers a run begins with the check. -/
theorem begin_answering_true (request : Facts) :
    begin (s.answering true) around r request =
      ask s (prepared s around r request).1 (prepared s around r request).2 .directCheck
        (checkBody s (prepared s around r request).2) := rfl

/-- Without direct answers a run begins with the plan. -/
theorem begin_answering_false (request : Facts) :
    begin (s.answering false) around r request =
      askPlan s (prepared s around r request).1 (prepared s around r request).2 := rfl

/-- Preparing a run does not cancel it. -/
theorem prepared_cancelledAt (request : Facts) :
    (prepared s around r request).2.cancelledAt = r.cancelledAt := by
  unfold prepared
  simp only
  split
  · rfl
  · rfl

/-- After a check that has been declined the run asks for a plan as it would have done before, only
later. -/
theorem abreast_of_declined (hs : s.Blind Same) (hfree : r.cancelledAt = none) {w : σ} {ms : Nat}
    {outcome : Except RunError String} (hsame : Same w around.world) (hdeclined : Declined outcome)
    (phase : Phase) :
    Abreast Same ms (checkLines outcome)
      (answered s { around with world := w, nowMs := around.nowMs + ms } { r with phase := phase }
        .directCheck outcome)
      (askPlan s around r) := by
  have haround : Surroundings.Trails Same ms
      { around with world := w, nowMs := around.nowMs + ms } around := ⟨rfl, hsame, rfl⟩
  -- a reply that says no leaves a line, and so does a check that failed; both go on to the plan
  cases outcome with
  | ok reply =>
    have hrun : Trails ms [] { r with phase := r.phase.delay ms } r :=
      ⟨hfree, r.ledger, ⟨[], r.ledger.logs, rfl, rfl⟩, rfl⟩
    have hno : saysYes reply = false := hdeclined
    have hplans : answered s { around with world := w, nowMs := around.nowMs + ms }
        { r with phase := phase } .directCheck (.ok reply) =
          askPlan s { around with world := w, nowMs := around.nowMs + ms }
            { r with phase := r.phase.delay ms } := by
      rw [answered, hno]
      rfl
    rw [hplans]
    exact abreast_ask hs haround hrun .plan (by simp [Question.task]) _
  | error e =>
    have hrun : Trails ms [s!"Direct answer check failed: {e.message}"]
        { (r.log s!"Direct answer check failed: {e.message}") with phase := r.phase.delay ms } r := by
      refine ⟨hfree, _, ⟨r.ledger.logs, [], (List.append_nil _).symm, ?_⟩, rfl⟩
      rw [List.append_nil]
      rfl
    have hplans : answered s { around with world := w, nowMs := around.nowMs + ms }
        { r with phase := phase } .directCheck (.error e) =
          askPlan s { around with world := w, nowMs := around.nowMs + ms }
            { (r.log s!"Direct answer check failed: {e.message}") with phase := r.phase.delay ms } := by
      rw [answered]
      · rfl
      · exact hdeclined
    rw [hplans]
    exact abreast_ask hs haround hrun .plan (by simp [Question.task]) _

/-- A run that is asking goes on with the answer, for which it waits. -/
theorem next?_of_asking {question : Question} {answer : Answer} (hfree : r.cancelledAt = none)
    (hphase : r.phase = .asking question answer) :
    next? s none around r = some (answered s
      { around with nowMs := max around.nowMs answer.dueMs } r question answer.outcome) := by
  have hcancelled : r.cancelled = false := by
    rw [cancelled, hfree]
    rfl
  have hstep : ∀ {later : Surroundings σ}, answer.dueMs ≤ later.nowMs →
      step? s later r = some (answered s later r question answer.outcome) := by
    intro later hdue
    simp only [step?, hphase, hcancelled, Bool.false_eq_true, if_false, if_pos hdue]
  -- the answer is due already, or the clock is moved to it
  by_cases hdue : answer.dueMs ≤ around.nowMs
  · rw [next?, hstep hdue, Nat.max_eq_left hdue]
  · have hwaits : step? s around r = none := by
      simp only [step?, hphase, hcancelled, Bool.false_eq_true, if_false, if_neg hdue]
    rw [next?, hwaits, due?, hphase]
    exact hstep (Nat.le_max_right _ _)

/-- Two runs of which the first makes the check and the second one asks for a plan. -/
theorem drive_of_asked (hs : s.Blind Same) (hfree : r.cancelledAt = none) {body : String} {w : σ}
    {ms : Nat} {outcome : Except RunError String}
    (hask : ask s around r .directCheck body =
      ({ around with world := w },
        { r with phase := .asking .directCheck ⟨around.nowMs + ms, outcome⟩ }))
    (hsame : Same w around.world) (hdeclined : Declined outcome) :
    Abreast Same ms (checkLines outcome)
      (drive (s.answering true) none (ask s around r .directCheck body).1
        (ask s around r .directCheck body).2)
      (drive (s.answering false) none (askPlan s around r).1 (askPlan s around r).2) := by
  have hnext : next? (s.answering true) none { around with world := w }
      { r with phase := .asking .directCheck ⟨around.nowMs + ms, outcome⟩ } = _ :=
    next?_of_asking hfree rfl
  rw [Nat.max_eq_right (Nat.le_add_right around.nowMs ms)] at hnext
  rw [hask, drive_next hnext]
  exact (abreast_of_declined hs hfree hsame hdeclined _).drive hs true false

/-- Two runs from one start, of which only the first makes the check, and it is declined. -/
theorem drive_of_declined (hs : s.Blind Same) (hfree : r.cancelledAt = none) {request : Facts}
    (hphase : r.phase = .starting request) {w : σ} {ms : Nat} {outcome : Except RunError String}
    (hask : ask s (prepared s around r request).1 (prepared s around r request).2 .directCheck
        (checkBody s (prepared s around r request).2) =
      ({ (prepared s around r request).1 with world := w },
        { (prepared s around r request).2 with
          phase := .asking .directCheck ⟨around.nowMs + ms, outcome⟩ }))
    (hsame : Same w around.world) (hdeclined : Declined outcome) :
    Abreast Same ms (checkLines outcome) (drive (s.answering true) none around r)
      (drive (s.answering false) none around r) := by
  -- both executions take their first step at once
  have hbegins : ∀ answers, next? (s.answering answers) none around r =
      some (begin (s.answering answers) around r request) := by
    intro answers
    rw [next?, step?, hphase]
  rw [drive_next (hbegins true), drive_next (hbegins false), begin_answering_true,
    begin_answering_false]
  exact drive_of_asked hs (by rw [prepared_cancelledAt, hfree]) hask hsame hdeclined

end Run

/-- What becomes of the check in a scene is what the script says. It leaves the scene alike. -/
theorem Script.exists_ask_check (script : Script) (registry : Registry τ) (rules : RulesSource)
    (settings : Settings) (around : Surroundings (Scene τ)) {r : Run} (hfree : r.cancelledAt = none)
    (body : String) {cue : Cue}
    (hcue : script.cue .directAnswerCheck (around.world.calls .directAnswerCheck) = cue) :
    ∃ w : Scene τ, w.Alike around.world ∧
      Run.ask (script.services registry rules settings) around r .directCheck body =
        ({ around with world := w },
          { r with phase := .asking .directCheck ⟨around.nowMs + cue.waitMs, cue.outcome⟩ }) := by
  have hcancelled : r.cancelled = false := by
    rw [Run.cancelled, hfree]
    rfl
  have hclient : (script.services registry rules settings).createClient Question.directCheck.task
      around.world = script.createClient .directAnswerCheck around.world := rfl
  unfold Run.ask
  rw [hcancelled, hclient, createClient, hcue]
  simp only [Bool.false_eq_true, if_false]
  cases cue with
  | refuses e => exact ⟨_, around.world.call_check_alike, rfl⟩
  | answers waitMs outcome =>
    exact ⟨_, (Scene.send_check_alike _ _).trans around.world.call_check_alike, rfl⟩

/-- What a script has the next check come to. -/
def Script.check (script : Script) (scene : Scene τ) : Except RunError String :=
  (script.cue .directAnswerCheck (scene.calls .directAnswerCheck)).outcome

/-- With scripted replies the two executions end alike, one line and one wait apart. -/
theorem Script.drive_of_declined (script : Script) (registry : Registry τ) (rules : RulesSource)
    (settings : Settings) {around : Surroundings (Scene τ)} {r : Run} (hfree : r.cancelledAt = none)
    {request : Facts} (hphase : r.phase = .starting request)
    (hdeclined : Declined (script.check around.world)) :
    ∃ ms, Run.Abreast Scene.Alike ms (checkLines (script.check around.world))
      (r.drive ((script.services registry rules settings).answering true) none around)
      (r.drive ((script.services registry rules settings).answering false) none around) := by
  have hfree' : (Run.prepared (script.services registry rules settings) around r request).2.cancelledAt =
      none := by rw [Run.prepared_cancelledAt, hfree]
  obtain ⟨w, hsame, hask⟩ := script.exists_ask_check registry rules settings
    (Run.prepared (script.services registry rules settings) around r request).1 hfree'
    (Run.checkBody (script.services registry rules settings)
      (Run.prepared (script.services registry rules settings) around r request).2) rfl
  exact ⟨_, Run.drive_of_declined (script.services_blind registry rules settings) hfree hphase hask
    hsame hdeclined⟩

-- ---------------------------------------------------------------------------
-- The engine
-- ---------------------------------------------------------------------------

namespace Engine

variable {σ : Type} {e : Engine σ}

/-- A run is accepted where none is active, and starts in what is around it. -/
theorem exists_accept (hidle : e.active = none) (hopen : e.slot.closed = false) (query : String)
    (request : Facts) : ∃ e' bus, e.accept query request = .ok e' ∧
      e'.active = some (.start e.nextId query request e.around.nowMs) ∧
      e'.history = e.history ∧ e'.around = { e.around with bus := bus } := by
  have htake : e.slot.take? (.start e.nextId query request e.around.nowMs) =
      some { e.slot with active := some (.start e.nextId query request e.around.nowMs) } := by
    rw [Slot.take?]
    change e.slot.active = none at hidle
    rw [hidle]
  unfold accept
  rw [if_neg (by rw [hopen]; exact Bool.false_ne_true)]
  simp only [htake]
  exact ⟨_, _, rfl, rfl, rfl, rfl⟩

/-- An execution carries a run on from its start, and files it. -/
theorem execute_eq_finish (s : Services σ) {e' : Engine σ} {query : String} {request : Facts}
    {r : Run} (haccept : e.accept query request = .ok e') (hactive : e'.active = some r)
    {error : Option RunError} (hover : (r.drive s none e'.around).2.phase = .over error) :
    e.execute s query request none =
      .ok ((e'.goOn (r.drive s none e'.around)).finish (r.drive s none e'.around).2 error) := by
  rw [execute, haccept, ← carryOn_of_over hactive hover]
  rfl

end Engine

/-- Two finished runs ended alike: with the same status, result, error and plan, and with ledgers
that differ in the log at most, so that nodes stand as they do in the other and have the same
outcomes. -/
structure HistoryEntry.EndsAs (x y : HistoryEntry) : Prop where
  query : x.query = y.query
  status : x.status = y.status
  text : x.result.text = y.result.text
  error : x.result.error = y.result.error
  plan : x.result.plan = y.result.plan
  ledger : x.result.ledger.Agrees y.result.ledger

/-- Runs that get to their ends abreast leave entries that differ in the log at most, and there in
the lines that the first one has more. -/
theorem Run.Abreast.entry {σ : Type} {Same : σ → σ → Prop} {ms : Nat} {lines : List String}
    {x y : Surroundings σ × Run} (h : Abreast Same ms lines x y) (error : Option RunError)
    (line : String) (nowMs nowMs' : Nat) :
    ((x.2.log line).entry error nowMs).EndsAs ((y.2.log line).entry error nowMs') ∧
      ∃ before after, ((x.2.log line).entry error nowMs).logs = before ++ lines ++ after ∧
        ((y.2.log line).entry error nowMs').logs = before ++ after := by
  have hadds := (h.run.log line).adds
  obtain ⟨hfree, ledger, -, hrun⟩ := h.run
  refine ⟨⟨?_, rfl, ?_, rfl, ?_, hadds.agrees⟩, hadds.logs⟩
  · rw [hrun]
    rfl
  · rw [hrun]
    rfl
  · rw [hrun]
    rfl

/-- **A direct answer check that does not answer leaves no trace.** On an idle engine, with any
layers that act in a world of their own and with language models that follow any script, a query is
executed with the check and without it. The script has the check fail, or come to an answer that is
not a yes. Then both executions end, and they end alike. The log of the first has one line more
if the check failed, and none otherwise. The layers leave the same world, and the prompts for all
other tasks are the same, in the same order. -/
theorem Engine.declined_check_transparent (registry : Registry τ) (script : Script)
    (rules : RulesSource) (settings : Settings) (e : Engine (Scene τ)) (query : String)
    (request : Facts) (hidle : e.active = none) (hopen : e.slot.closed = false)
    (hdeclined : Declined (script.check e.around.world)) :
    ∃ e₁ e₂ x y,
      e.execute ((script.services registry rules settings).answering true) query request none = .ok e₁ ∧
      e.execute ((script.services registry rules settings).answering false) query request none = .ok e₂ ∧
      e₁.history = e.history.push x ∧ e₂.history = e.history.push y ∧ x.EndsAs y ∧
      (∃ before after, x.logs = before ++ checkLines (script.check e.around.world) ++ after ∧
        y.logs = before ++ after) ∧
      e₁.around.world.outside = e₂.around.world.outside ∧
      e₁.around.world.otherPrompts = e₂.around.world.otherPrompts := by
  obtain ⟨e', bus, haccept, hactive, hhistory, haround⟩ := exists_accept hidle hopen query request
  have hworld : e'.around.world = e.around.world := by rw [haround]
  rw [← hworld] at hdeclined
  have hfree : (Run.start e.nextId query request e.around.nowMs).cancelledAt = none := rfl
  obtain ⟨ms, habreast⟩ := script.drive_of_declined registry rules settings hfree rfl hdeclined
  -- both runs end, and with the same error
  have hmanned := Run.Manned.start e.nextId query request e.around.nowMs
  obtain ⟨error, hover⟩ := Run.drive_over
    ((script.services registry rules settings).answering false) e'.around _ hmanned
  have hover' := habreast.run.phase_eq
  rw [hover, Phase.delay] at hover'
  obtain ⟨hends, hlogs⟩ := habreast.entry error s!"Run {(Run.endStatus error).name}" _ _
  rw [hworld] at hlogs
  refine ⟨_, _, _, _, execute_eq_finish _ haccept hactive hover',
    execute_eq_finish _ haccept hactive hover, ?_, ?_, hends, hlogs, ?_, ?_⟩
  · rw [← hhistory]
    rfl
  · rw [← hhistory]
    rfl
  · exact habreast.around.world.outside
  · exact habreast.around.world.prompts

/-- A script in which the check cannot be made. -/
def unreachableScript : Script where
  contextLength _ := 16000
  cue task _ :=
    if task = .directAnswerCheck then .answers 5 (.error (.network "connection reset"))
    else .answers 0 (.ok (Engine.echoReply task).compact)

/-- The check fails after five milliseconds, and the query is planned, executed and judged. -/
theorem Engine.declined_check_transparent_unreachable :
    ∃ e₁ e₂ x y,
      (Engine.start .standard .empty (⟨(), fun _ => 0, []⟩ : Scene Unit) 0).execute
        ((unreachableScript.services Traversal.echoDispatch.registry (fun _ => none)
          .standard).answering true) "q" .empty none = .ok e₁ ∧
      (Engine.start .standard .empty (⟨(), fun _ => 0, []⟩ : Scene Unit) 0).execute
        ((unreachableScript.services Traversal.echoDispatch.registry (fun _ => none)
          .standard).answering false) "q" .empty none = .ok e₂ ∧
      e₁.history.entries = [x] ∧ e₂.history.entries = [y] ∧ x.EndsAs y ∧
      (∃ before after, x.logs = before ++
          ["Direct answer check failed: LLM error: Network error: connection reset"] ++ after ∧
        y.logs = before ++ after) ∧
      e₁.around.world.otherPrompts = e₂.around.world.otherPrompts := by
  obtain ⟨e₁, e₂, x, y, hfirst, hsecond, hhistory, hhistory', hends, hlogs, -, hprompts⟩ :=
    declined_check_transparent Traversal.echoDispatch.registry unreachableScript (fun _ => none)
      .standard (Engine.start .standard .empty (⟨(), fun _ => 0, []⟩ : Scene Unit) 0) "q" .empty rfl rfl
      (show RunError.provider (.network "connection reset") ≠ .cancelled by decide)
  refine ⟨e₁, e₂, x, y, hfirst, hsecond, ?_, ?_, hends, hlogs, hprompts⟩
  · rw [hhistory]
    rfl
  · rw [hhistory']
    rfl

end PlanRunner
