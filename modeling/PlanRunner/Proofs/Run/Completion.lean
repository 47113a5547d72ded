import PlanRunner.Proofs.Engine.Execution
import PlanRunner.Proofs.Run.Budget
import PlanRunner.Proofs.Run.Operations

/-!
# PlanRunner — why a run has completed

A run that has executed a plan and completes owes this to the evaluator. The last thing it has set
about is the evaluation of the text with which it is filed, and the reply was a sufficient
verdict. Under the strict policy the evaluator is not even asked about an attempt with a failed
node. Where the execution that was evaluated has come to its end, uncancelled and without a failed
node, nothing of the plan is left to start, so all of it has completed. For the last step the
nodes of the plan have to be told apart by their ids: of two nodes with one id the second takes
the outcome of the first for its own, and what is below it may never start.

* `Node.EndedAll.completed` — what has ended without a failed node has completed;
* `Run.Consults` — what a step asks the evaluator;
* `Run.Approved` — how the last evaluation has come about;
* `Run.completed_justified` — the grounds on which a run completes.
-/

namespace PlanRunner

-- ---------------------------------------------------------------------------
-- Failures and their errors
-- ---------------------------------------------------------------------------

namespace Ledger

/-- A ledger in which every failed node has an error. -/
abbrev Explained (l : Ledger) : Prop := l.Backed .failed fun _ f => f.status = .failed

namespace Explained

variable {l m : Ledger}

/-- Without a failure to report no node has failed. -/
theorem failed_eq_nil (h : l.Explained) (hnone : l.failures = []) : l.failed = [] := by
  refine List.eq_nil_iff_forall_not_mem.mpr fun id hid => ?_
  obtain ⟨f, hfragment, hfailed⟩ := h.outcome id hid
  cases f with
  | completed value => cases hfailed
  | failed error =>
    have hfield := (field?_eq_some_iff h.sorted).mpr hfragment
    have hmem : (id, error) ∈ l.failures := by
      rw [failures, List.mem_filterMap]
      exact ⟨id, hid, by rw [hfield]⟩
    rw [hnone] at hmem
    exact List.not_mem_nil hmem

/-- A failure is recorded with its error, so it is explained. -/
theorem record (h : l.Explained) (node : Node) (outcome : Except LayerError Value) :
    (Walk.record l node outcome).Explained := by
  rw [Walk.record_eq]
  exact (h.log _).enter id

end Explained

end Ledger

-- ---------------------------------------------------------------------------
-- What has ended without a failed node
-- ---------------------------------------------------------------------------

namespace Node

variable {status : String → Status}

mutual

/-- Where nothing fails, a node that has ended has completed with all below it. -/
theorem Ended.completed (hnone : ∀ id, status id ≠ .failed) :
    ∀ {n : Node}, n.Ended status → ∀ id ∈ n.ids, status id = .completed
  | ⟨id, _, _, _, _, children⟩, h, other, hother => by
    rw [Ended] at h
    obtain ⟨hstatus, hchildren⟩ := h.resolve_left (hnone id)
    rw [ids] at hother
    rcases List.mem_cons.mp hother with rfl | hother
    · exact hstatus
    · exact hchildren.completed hnone other hother

/-- Where nothing is left to start and no node has failed, all have completed. -/
theorem EndedAll.completed (hnone : ∀ id, status id ≠ .failed) :
    ∀ {ns : List Node}, EndedAll status ns → ∀ id ∈ idsAll ns, status id = .completed
  | [], _, _, hid => absurd hid List.not_mem_nil
  | n :: ns, h, id, hid => by
    rw [idsAll] at hid
    rcases List.mem_append.mp hid with hid | hid
    · exact h.1.completed hnone id hid
    · exact h.2.completed hnone id hid

end

end Node

namespace Run

variable {σ : Type} {s : Services σ} {around : Surroundings σ} {r₀ q r : Run}
  {x : Surroundings σ × Run} {marks : List Mark} {m : Option Mark}
  {P : Surroundings σ → Run → Surroundings σ × Run → Prop}

-- ---------------------------------------------------------------------------
-- Failed nodes along a course
-- ---------------------------------------------------------------------------

/-- What holds of the failed nodes of a run: each has its error, and there are none before there
is a plan. -/
structure Candid (r : Run) : Prop where
  explained : r.ledger.Explained
  opening : r.phase.stage = .opening → r.ledger.failed = []

theorem Candid.start (id query : String) (request : Facts) (nowMs : Nat) :
    (Run.start id query request nowMs).Candid :=
  ⟨.start 0, fun _ => rfl⟩

/-- A question leaves the failed nodes as they are. -/
theorem Candid.ask {s : Services σ} {around : Surroundings σ} {r : Run} {question : Question}
    (body : String) (h : r.ledger.Explained)
    (hopening : question.stage = .opening → r.ledger.failed = []) :
    (Run.ask s around r question body).2.Candid := by
  obtain ⟨answer, hask⟩ := exists_ask s around r question body
  rw [hask]
  exact ⟨h, hopening⟩

theorem Candid.conclude {r : Run} (h : r.ledger.Explained) (error : Option RunError) :
    (r.conclude error).Candid :=
  ⟨h, fun hstage => Stage.noConfusion hstage⟩

/-- A plan is taken over with a ledger in which every failed node still has its error. -/
theorem Adopts.explained {plan : Plan} {ledger : Ledger} (h : Adopts r plan ledger)
    (hr : r.ledger.Explained) : ledger.Explained := by
  cases h with
  | planned _ _ => exact (hr.carryOver _ _).log _
  | replanned _ _ hreplan =>
    obtain ⟨_, _, -, -, -, rfl⟩ := replan_eq_again_iff.mp hreplan
    exact (hr.carryOver _ _).log _
  | adjusted _ => exact (hr.reset _).of_agrees (Adjusting.finish_agrees _ _ _)

/-- No step hides a failure: nodes fail with an outcome that says so. -/
theorem Candid.event (h : r.Candid) (hevent : Event s around r m x) : x.2.Candid := by
  have hjudged : ∀ {q : Run} {verdict : Verdict}, Judges s r q verdict → q.ledger.Explained :=
    fun hjudges => hjudges.ledger_eq ▸ h.explained
  cases hevent with
  | asks context body hraises hlogs =>
    exact .ask body (h.explained.of_same rfl rfl) fun hopening => h.opening (hraises.stage.trans hopening)
  | breaksOff error hend hdone => exact .conclude h.explained _
  | stops reason why hstage => exact .conclude (h.explained.log _) _
  | answersDirectly text hphase =>
    -- the answer is no outcome of a node that has failed, because none has
    have hnone : r.ledger.failed = [] := h.opening (congrArg Phase.stage hphase)
    refine ⟨(h.explained.recordFragment fun hfailed => ?_).log _, fun _ => hnone⟩
    rw [Ledger.ended, hnone] at hfailed
    exact absurd hfailed List.not_mem_nil
  | adopts hadopts => exact ⟨hadopts.explained h.explained, fun hopening => Stage.noConfusion hopening⟩
  | @walks walks walks' ticket sh hphase hturn =>
    refine ⟨?_, fun hopening => Stage.noConfusion hopening⟩
    show sh.ledger.Explained
    cases hturn.touches with
    | quiet hledger _ =>
      have hsame : sh.ledger = r.ledger := hledger
      rw [hsame]
      exact h.explained
    | starts _ hmark _ => exact h.explained.markRunning hmark
    | ends _ outcome hrecord _ =>
      have hledger : sh.ledger = Walk.record r.ledger _ outcome := hrecord
      rw [hledger]
      exact h.explained.record _ outcome
  | consults hexecuted hpolicy =>
    exact .ask _ h.explained fun hopening => Stage.noConfusion hopening
  | accepts hjudges hsufficient => exact .conclude ((hjudged hjudges).log _) _
  | exhausts hjudges hinsufficient hspent => exact .conclude ((hjudged hjudges).log _) _
  | reconsiders hjudges hinsufficient hleft body =>
    exact .ask body ((hjudged hjudges).log _) fun hopening => Stage.noConfusion hopening

/-- So a course never hides one. -/
theorem Course.candid (h : Course s P r₀ r marks) (hr₀ : r₀.Candid) : r.Candid :=
  h.keeps (I := fun r _ => r.Candid) hr₀ (fun _ _ hevent hcandid => hcandid.event hevent)
    fun _ hcandid => ⟨hcandid.explained, hcandid.opening⟩

-- ---------------------------------------------------------------------------
-- The last evaluation
-- ---------------------------------------------------------------------------

/-- What a step asks the evaluator, if it asks him: about the text of an attempt that has come to
its end, and under the strict policy without a failed node. -/
def Consults (s : Services σ) (around : Surroundings σ) (r : Run) (x : Surroundings σ × Run) : Prop :=
  r.phase.mark x.2.phase = some .evaluation →
    r.Executed ∧ (s.settings.failurePolicy = .strict → r.ledger.failed = []) ∧
      x = ask s around r.aggregated .evaluation
        (Prompt.evaluation r.query (r.planOrEmpty.resultText r.ledger) r.ledger.failures)

/-- Whether the evaluator is asked is decided by the policy and the failures of the ledger. -/
theorem Event.consults_eq (h : Event s around r m x) (hr : r.Candid) : Consults s around r x := by
  intro hmark
  rw [h.mark_eq] at hmark
  subst hmark
  cases h with
  | consults hexecuted hpolicy =>
    exact ⟨hexecuted, fun hstrict => hr.explained.failed_eq_nil (hpolicy hstrict), rfl⟩

/-- So it is along a course. -/
theorem Course.consults (h : Course s P r₀ r marks) (hr₀ : r₀.Candid) :
    Course s (Consults s) r₀ r marks := by
  induction h with
  | start => exact .start
  | step hcourse hstep _ ih =>
    obtain ⟨m, hevent⟩ := hstep.event
    exact ih.step hstep (hevent.consults_eq (hcourse.candid hr₀))
  | cancel _ nowMs ih => exact ih.cancel nowMs

/-- Whether a run is another one, which may have been cancelled meanwhile. -/
def Later (q r : Run) : Prop := ∃ cancelledAt, r = { q with cancelledAt := cancelledAt }

/-- A run is no earlier than itself. -/
theorem Later.refl (r : Run) : r.Later r := ⟨r.cancelledAt, rfl⟩

/-- A cancellation changes neither the plan nor what is recorded. -/
theorem Later.cancel (h : q.Later r) (nowMs : Nat) : q.Later (r.cancel nowMs) := by
  obtain ⟨cancelledAt, rfl⟩ := h
  exact ⟨_, rfl⟩

/-- How a run stands that waits for the evaluator: `q` was at the end of an execution, and the
last thing set about was to ask about its text. -/
structure Evaluating (s : Services σ) (P : Surroundings σ → Run → Surroundings σ × Run → Prop)
    (r₀ q r : Run) (marks : List Mark) (text : String) : Prop where
  course : ∃ before, Course s P r₀ q before ∧ marks = before ++ [.evaluation]
  executed : q.Executed
  text_eq : text = q.planOrEmpty.resultText q.ledger
  unfailed : s.settings.failurePolicy = .strict → q.ledger.failed = []
  asked : ∃ around, (ask s around q.aggregated .evaluation
    (Prompt.evaluation q.query text q.ledger.failures)).2.Later r

/-- Whether an evaluator's answer is a reply that holds a sufficient verdict. -/
def Sufficient (outcome : Except RunError String) : Prop :=
  ∃ reply verdict, outcome = .ok reply ∧ Verdict.ofReply reply = some verdict ∧
    verdict.sufficient = true

/-- How a run has completed that waited for the evaluator: by his answer, and no answer but one
with a sufficient verdict would have led there. -/
def Approved (s : Services σ) (P : Surroundings σ → Run → Surroundings σ × Run → Prop)
    (r₀ q r : Run) (marks : List Mark) (text : String) : Prop :=
  ∃ asked around, Evaluating s P r₀ q asked marks text ∧
    (∃ outcome, (answered s around asked .evaluation outcome).2.Later r) ∧
      ∀ outcome, (answered s around asked .evaluation outcome).2.phase = .over none →
        Sufficient outcome

/-- What the place of a run in the loop of attempts tells about its last evaluation. -/
def Vetted (s : Services σ) (P : Surroundings σ → Run → Surroundings σ × Run → Prop) (r₀ r : Run)
    (marks : List Mark) : Prop :=
  match r.phase.stage with
  | .evaluating => ∃ q, Evaluating s P r₀ q r marks r.resultText
  | .over none => .execution ∈ marks → ∃ q, Approved s P r₀ q r marks r.resultText
  | .opening => True
  | .executing => True
  | .retrying => True
  | .over (some _) => True

/-- Only a reply can hold a sufficient verdict. -/
theorem sufficient_of_verdict {outcome : Except RunError String} {verdict : Verdict}
    (h : verdictOf? outcome = some verdict) (hsufficient : verdict.sufficient = true) :
    Sufficient outcome := by
  unfold verdictOf? at h
  split at h
  · exact absurd h (by simp)
  · rename_i reply
    cases hreply : Verdict.ofReply reply with
    -- only a reply that can be read has a verdict that is sufficient
    | some found =>
      rw [hreply, Option.getD_some] at h
      obtain rfl := Option.some.inj h
      exact ⟨reply, found, rfl, hreply, hsufficient⟩
    | none =>
      rw [hreply, Option.getD_none] at h
      rw [← Option.some.inj h] at hsufficient
      exact absurd hsufficient (by decide)
  · rw [← Option.some.inj h] at hsufficient
    exact absurd hsufficient (by simp [Verdict.insufficient])

/-- A run that completes with the answer of the evaluator has got a sufficient verdict. -/
theorem sufficient_of_over {outcome : Except RunError String}
    (h : (answered s around r .evaluation outcome).2.phase = .over none) : Sufficient outcome := by
  cases hverdict : verdictOf? outcome with
  | none =>
    -- without a verdict the run is cancelled
    unfold verdictOf? at hverdict
    split at hverdict
    · exact absurd (Phase.over.inj h) (by simp)
    · exact absurd hverdict (by simp)
    · exact absurd hverdict (by simp)
  | some verdict =>
    rw [answered_evaluation hverdict] at h
    by_cases hsufficient : verdict.sufficient = true
    · exact sufficient_of_verdict hverdict hsufficient
    · exact absurd (judged_over (Bool.eq_false_iff.mpr hsufficient) h).2 (by simp)

/-- A step of a vetted run leaves a vetted one: the end a run reports was approved, and what is
waiting for a verdict is what was aggregated. -/
theorem Vetted.event (h : Vetted s P r₀ r marks) (hcourse : Course s P r₀ r marks)
    (hkept : r.standing.Kept s.settings.maxRetries marks) (hr : r.Candid)
    (hevent : Event s around r m x) : Vetted s P r₀ x.2 (marks ++ m.toList) := by
  cases hevent with
  | @asks question logs context body hraises hlogs =>
    obtain ⟨answer, hask⟩ :=
      exists_ask s { around with context := context } (r.withLogs logs) question body
    rw [hask]
    cases hraises <;> trivial
  | breaksOff error hend hdone => trivial
  | stops reason why hstage => trivial
  -- no tree was executed, and a vetted end asks about a run that had a plan
  | answersDirectly text hphase =>
    rw [Option.toList_none, List.append_nil]
    exact fun hplan => absurd hplan (hkept.execution_notMem (congrArg Phase.stage hphase))
  | adopts hadopts => trivial
  | walks hphase hturn => trivial
  | consults hexecuted hpolicy =>
    obtain ⟨answer, hask⟩ := exists_ask s around r.aggregated .evaluation
      (Prompt.evaluation r.query r.aggregated.resultText r.ledger.failures)
    have htext : (ask s around r.aggregated .evaluation
        (Prompt.evaluation r.query r.aggregated.resultText r.ledger.failures)).2.resultText =
          r.planOrEmpty.resultText r.ledger := by
      rw [hask]
      rfl
    have hevaluating : Evaluating s P r₀ r (ask s around r.aggregated .evaluation
        (Prompt.evaluation r.query r.aggregated.resultText r.ledger.failures)).2
          (marks ++ [.evaluation]) (r.planOrEmpty.resultText r.ledger) :=
      ⟨⟨marks, hcourse, rfl⟩, hexecuted, rfl,
        fun hstrict => hr.explained.failed_eq_nil (hpolicy hstrict), around, .refl _⟩
    rw [← htext] at hevaluating
    rw [hask] at hevaluating ⊢
    exact ⟨r, hevaluating⟩
  | @accepts q verdict hjudges hsufficient =>
    rw [Option.toList_none, List.append_nil]
    cases hjudges with
    | failures _ _ _ => exact absurd hsufficient (by simp [Verdict.ofFailures, Verdict.insufficient])
    | @reply answer outcome _ hphase hverdict =>
      have hstage : r.phase.stage = .evaluating := congrArg Phase.stage hphase
      simp only [Vetted, hstage] at h
      obtain ⟨q, hevaluating⟩ := h
      refine fun _ => ⟨q, r, around, hevaluating, ⟨outcome, ?_⟩, fun _ => sufficient_of_over⟩
      rw [answered_evaluation hverdict, judged_of_sufficient s around r hsufficient]
      exact .refl _
  | exhausts hjudges hinsufficient hspent => trivial
  | @reconsiders q verdict hjudges hinsufficient hleft body =>
    obtain ⟨answer, hask⟩ :=
      exists_ask s around (q.reconsidered verdict) (.strategy verdict.reason) body
    rw [hask]
    trivial

theorem Evaluating.cancel {text : String} (h : Evaluating s P r₀ q r marks text) (nowMs : Nat) :
    Evaluating s P r₀ q (r.cancel nowMs) marks text := by
  obtain ⟨around, hasked⟩ := h.asked
  exact ⟨h.course, h.executed, h.text_eq, h.unfailed, around, hasked.cancel nowMs⟩

theorem Approved.cancel {text : String} (h : Approved s P r₀ q r marks text) (nowMs : Nat) :
    Approved s P r₀ q (r.cancel nowMs) marks text := by
  obtain ⟨asked, around, hevaluating, ⟨outcome, hlater⟩, hsufficient⟩ := h
  exact ⟨asked, around, hevaluating, ⟨outcome, hlater.cancel nowMs⟩, hsufficient⟩

/-- A cancellation takes no approval back. -/
theorem Vetted.cancel (h : Vetted s P r₀ r marks) (nowMs : Nat) :
    Vetted s P r₀ (r.cancel nowMs) marks := by
  have hstage : (r.cancel nowMs).phase.stage = r.phase.stage := rfl
  unfold Vetted at h ⊢
  rw [hstage]
  split
  · rename_i hevaluating
    rw [hevaluating] at h
    obtain ⟨q, h⟩ := h
    exact ⟨q, h.cancel nowMs⟩
  · rename_i hover
    rw [hover] at h
    intro hplan
    obtain ⟨q, h⟩ := h hplan
    exact ⟨q, h.cancel nowMs⟩
  · trivial
  · trivial
  · trivial
  · trivial

/-- Along a course every end is vetted. -/
theorem Course.vetted (h : Course s P r₀ r marks) (hr₀ : r₀.standing.Kept s.settings.maxRetries [])
    (hcandid : r₀.Candid) (hfirst : Vetted s P r₀ r₀ []) : Vetted s P r₀ r marks :=
  h.keeps hfirst (fun hcourse _ hevent hvetted =>
    hvetted.event hcourse (hcourse.kept hr₀) (hcourse.candid hcandid) hevent)
    fun nowMs hvetted => hvetted.cancel nowMs

/-- The evaluation leaves the plan, and of the ledger all but the log. -/
theorem Approved.agrees {text : String} (h : Approved s P r₀ q r marks text)
    (hover : r.phase = .over none) : r.plan = q.plan ∧ r.ledger.Agrees q.ledger := by
  obtain ⟨asked, around, hevaluating, ⟨outcome, cancelledAt, rfl⟩, hsufficient⟩ := h
  obtain ⟨reply, verdict, rfl, hreply, hverdict⟩ := hsufficient outcome hover
  obtain ⟨around', _, rfl⟩ := hevaluating.asked
  obtain ⟨answer, hask⟩ := exists_ask s around' q.aggregated .evaluation
    (Prompt.evaluation q.query text q.ledger.failures)
  have hfound : verdictOf? (.ok reply) = some verdict := by
    rw [verdictOf?, hreply, Option.getD_some]
  rw [answered_evaluation hfound, judged_of_sufficient s _ _ hverdict, hask]
  exact ⟨rfl, rfl, rfl, rfl, rfl, rfl⟩

-- ---------------------------------------------------------------------------
-- An execution that has come to its end
-- ---------------------------------------------------------------------------

/-- What holds of a run between two steps as long as no plan it comes to has a collision. -/
structure Clear (s : Services σ) (r : Run) : Prop where
  sound : r.Sound
  free : r.planOrEmpty.CollisionFree
  manned : r.Manned
  underway : ∀ around, Engine.Underway s around r

theorem Clear.start (s : Services σ) (id query : String) (request : Facts) (nowMs : Nat) :
    Clear s (.start id query request nowMs) where
  sound := .start id query request nowMs
  free := fun _ hplace => absurd hplace List.not_mem_nil
  manned := .start id query request nowMs
  underway := fun _ _ _ hphase => Phase.noConfusion hphase

/-- A step of a run whose plans are free of collisions keeps its ledger in order and its plan sound.
-/
theorem Clear.step (h : Clear s r) (hstep : r.Step s around x)
    (hfree : x.2.planOrEmpty.CollisionFree) : Clear s x.2 where
  sound := (hstep.kept h.sound (h.sound.nodup h.free)).sound
  free := hfree
  manned := hstep.manned h.manned
  underway := by
    intro around'
    have hsound := (hstep.kept h.sound (h.sound.nodup h.free)).sound
    exact ((h.underway around).step hstep h.manned hsound).meanwhile rfl rfl rfl fun hcancel => hcancel

/-- So does a course. -/
theorem Course.clear (h : Course s P r₀ r marks) (hr₀ : Clear s r₀)
    (hfree : ∀ {around r x}, P around r x → x.2.planOrEmpty.CollisionFree) : Clear s r := by
  induction h with
  | start => exact hr₀
  | step _ hstep hp ih => exact ih.step hstep (hfree hp)
  | cancel _ nowMs ih =>
    exact ⟨ih.sound.cancel nowMs, ih.free, ih.manned.cancel nowMs, fun around =>
      (ih.underway around).meanwhile rfl rfl rfl fun _ => rfl⟩

/-- Where an execution has come to its end without a failed node, all nodes have completed. -/
theorem Clear.completed (h : Clear s r) (around : Surroundings σ) (hexecuted : r.Executed)
    (hnone : r.ledger.failed = []) : ∀ id ∈ r.planOrEmpty.ids, r.ledger.status id = .completed := by
  obtain ⟨hopen, walks, ticket, hphase, hdone⟩ := hexecuted
  obtain ⟨sh, deeds, hrest, htrace⟩ := h.underway around walks ticket hphase
  have hsteady := htrace.steady (h.sound.nodup h.free) hrest
  have hended : Node.EndedAll r.ledger.status r.planOrEmpty.roots := hsteady.endedAll hopen hdone
  refine hended.completed fun id hfailed => ?_
  have hmem := (Ledger.status_eq_failed_iff.mp hfailed).2
  rw [hnone] at hmem
  exact List.not_mem_nil hmem

/-- Where all nodes have completed, the completed ones are as many as there are. -/
theorem Sound.length_completed (h : r.Sound) (hfree : r.planOrEmpty.CollisionFree)
    (hall : ∀ id ∈ r.planOrEmpty.ids, r.ledger.status id = .completed) :
    r.ledger.completed.length = r.ledger.total := by
  have hmem : ∀ id, id ∈ r.ledger.completed ↔ id ∈ r.planOrEmpty.ids := fun id =>
    h.ledger.mem_completed_iff.trans ⟨fun hid => hid.1, fun hid => ⟨hid, hall id hid⟩⟩
  have hperm := (List.perm_ext_iff_of_nodup h.ledger.orderly.completed_sorted.nodup
    (h.nodup hfree)).mpr hmem
  rw [hperm.length_eq, h.ledger.total, Plan.count_eq_length_ids]

/-- **Why a run has completed.** A run that has executed a plan is over without an error. Whichever
engine files it, the entry in the history says that it has completed. The last thing it has set
about was to have the text of the entry evaluated at the end of an execution, the reply was a
sufficient verdict, and no node is running. No step has asked the evaluator about an execution
that had not come to its end, and under the strict policy none about one with a failed node; then
no node of the entry has failed. If moreover no plan that the run has come to has a collision, all
nodes of the plan of the entry have completed, and as many are counted. -/
theorem completed_justified {id query : String} {request : Facts} {nowMs : Nat}
    (h : Course s P (.start id query request nowMs) r marks) (hplan : .execution ∈ marks)
    (hover : r.phase = .over none) (e : Engine σ) :
    ∃ p entry q, (e.finish r none).history = e.history.push entry ∧ entry.status = .completed ∧
      entry.result.plan = some p ∧
      Approved s P (.start id query request nowMs) q r marks entry.result.text ∧
      entry.result.ledger.running = [] ∧
      Course s (Consults s) (.start id query request nowMs) r marks ∧
      (s.settings.failurePolicy = .strict → entry.result.ledger.failed = [] ∧
        ((∀ {around r x}, P around r x → x.2.planOrEmpty.CollisionFree) →
          (∀ id ∈ p.ids, entry.result.ledger.status id = .completed) ∧
            entry.result.ledger.completed.length = entry.result.ledger.total ∧
            entry.result.ledger.total = p.count)) := by
  have hstart : (Run.start id query request nowMs).standing.Kept s.settings.maxRetries [] := .start _
  have hcandid := Candid.start id query request nowMs
  obtain ⟨p, hp⟩ := h.exists_plan hplan
  have hvetted := h.vetted hstart hcandid trivial
  simp only [Vetted, hover, Phase.stage] at hvetted
  obtain ⟨q, happroved⟩ := hvetted hplan
  have hmanned := h.manned (.start id query request nowMs)
  have hidle : r.calls = [] := by rw [calls, hover]
  refine ⟨p, _, q, rfl, rfl, hp, happroved, hmanned.idle hidle, h.consults hcandid, fun hstrict => ?_⟩
  -- from the verdict to the end the plan and the ledger stand still
  obtain ⟨hsame, hagrees⟩ := happroved.agrees hover
  obtain ⟨_, _, hevaluating, -⟩ := happroved
  have hnone := hevaluating.unfailed hstrict
  refine ⟨hagrees.failed.trans hnone, fun hfree => ?_⟩
  obtain ⟨before, hbefore, -⟩ := hevaluating.course
  obtain ⟨around, -⟩ := hevaluating.asked
  have hclear := hbefore.clear (.start s id query request nowMs) hfree
  -- every node has an outcome after an execution, and under a strict policy none of them failed
  have hall := hclear.completed around hevaluating.executed hnone
  have hq : q.planOrEmpty = p := by
    rw [planOrEmpty, ← hsame, hp, Option.getD_some]
  have hlength := hclear.sound.length_completed hclear.free hall
  have htotal := hclear.sound.ledger.total
  rw [hq] at hall htotal
  show (∀ id ∈ p.ids, r.ledger.status id = .completed) ∧
    r.ledger.completed.length = r.ledger.total ∧ r.ledger.total = p.count
  rw [hagrees.status, hagrees.completed, hagrees.total]
  exact ⟨hall, hlength, htotal⟩

-- ---------------------------------------------------------------------------
-- A run that completes, and one with two nodes of one id
-- ---------------------------------------------------------------------------

/-- A run of which a node fails completes with the nodes that take its place. -/
theorem completed_justified_echo :
    ∃ r marks, Course Engine.echoServices
        (fun _ _ x => decide x.2.planOrEmpty.CollisionFree = true) (.start "run-1" "q" .empty 0) r marks ∧
      marks = [.execution, .strategy, .execution, .evaluation] ∧ r.phase = .over none ∧
      ∀ e : Engine Unit, ∃ p entry, (e.finish r none).history = e.history.push entry ∧
        entry.status = .completed ∧ entry.result.plan = some p ∧ entry.result.ledger.failed = [] ∧
        (∀ id ∈ p.ids, entry.result.ledger.status id = .completed) ∧
        entry.result.ledger.completed.length = entry.result.ledger.total := by
  have hrun : (taken? Engine.echoServices (fun _ x => decide x.2.planOrEmpty.CollisionFree) 15
      (⟨0, (), .start .empty, .withCapacity 1⟩, Run.start "run-1" "q" .empty 0)).any (fun reached =>
        decide (reached.2 = [.execution, .strategy, .execution, .evaluation] ∧
          reached.1.phase.over? = some none)) = true := by
    decide +kernel
  obtain ⟨⟨r, marks⟩, hreached, htest⟩ := (Option.any_eq_true _ _).mp hrun
  simp only [decide_eq_true_eq] at htest
  obtain ⟨hmarks, hphase⟩ := htest
  have hover := Phase.eq_over_of_over? hphase
  have hcourse := course_of_taken? (fun _ hfree => hfree) hreached .start
  rw [List.nil_append] at hcourse
  have hplan : Mark.execution ∈ marks := by
    rw [hmarks]
    decide
  refine ⟨r, marks, hcourse, hmarks, hover, fun e => ?_⟩
  obtain ⟨p, entry, q, hhistory, hstatus, hp, -, -, -, hstrict⟩ :=
    completed_justified hcourse hplan hover e
  obtain ⟨hfailed, hfree⟩ := hstrict rfl
  obtain ⟨hall, hlength, -⟩ := hfree fun hx => of_decide_eq_true hx
  exact ⟨p, entry, hhistory, hstatus, hp, hfailed, hall, hlength⟩

/-- The replies to the questions of a run with one node. The first verdict, before which no
evaluation has been made, is insufficient, and two children take the place of the node; the layers
of the children are such that both get the same id. -/
def sharingReply (evaluations : Nat) : Task → Json
  | .planCreation => .arr [Plan.callJson "a" "f" []]
  | .evaluation => .obj [("sufficient", .bool (evaluations != 0)), ("reason", .str "more")]
  | .retryStrategy => .obj [("action", .str "replan"), ("node_id", .str "n-7e01a3288edc5855"),
      ("subtree", .obj [("layer", .str "a"), ("function", .str "f"), ("parallel", .bool true),
        ("children", .arr [Plan.callJson "c6143f941e10da6a" "f" [],
          Plan.callJson "8d6281aa89a31ceb" "f" [Plan.callJson "g" "f" []]])])]
  | .directAnswerCheck => .null
  | .directAnswerGeneration => .null
  | .parameterExtraction => .null

/-- Four layers, of which one takes a while. The world is the number of evaluations so far. -/
def sharingServices : Services Nat where
  registry := (((Registry.empty.register "a" (.immediate "" [] fun _ _ => .ok (.str "root"))).register
    "c6143f941e10da6a" ⟨"", [], fun _ _ n => (⟨50, .ok (.str "first")⟩, n)⟩).register
    "8d6281aa89a31ceb" (.immediate "" [] fun _ _ => .ok (.str "second"))).register
    "g" (.immediate "" [] fun _ _ => .ok (.str "below"))
  createClient := fun task n =>
    (.ok ⟨"", "", 0, fun _ n => (⟨0, .ok (sharingReply n task).compact⟩,
      if task = .evaluation then n + 1 else n)⟩, n)
  rules := fun _ => none
  settings := { Settings.standard with directAnswer := false }

/-- Such a run completes although the node below the second child has never started. -/
theorem exists_completed_pending :
    ∃ r marks p, Course sharingServices (AnyStep Nat) (.start "run-1" "q" .empty 0) r marks ∧
      sharingServices.settings.failurePolicy = .strict ∧ .execution ∈ marks ∧
      r.phase = .over none ∧ r.plan = some p ∧
      "n-8645b1f428b1eeda" ∈ p.ids ∧ r.ledger.status "n-8645b1f428b1eeda" = .pending ∧
      r.ledger.total = 4 ∧ r.ledger.completed = ["n-7e01a3288edc5855", "n-f56c52e99bd41580"] := by
  have hrun : (taken? sharingServices (fun _ _ => true) 14
      (⟨0, 0, .start .empty, .withCapacity 1⟩, Run.start "run-1" "q" .empty 0)).any (fun reached =>
        decide (.execution ∈ reached.2 ∧ reached.1.phase.over? = some none ∧
          reached.1.ledger.status "n-8645b1f428b1eeda" = .pending ∧ reached.1.ledger.total = 4 ∧
          reached.1.ledger.completed = ["n-7e01a3288edc5855", "n-f56c52e99bd41580"]) &&
        reached.1.plan.any (fun p => decide ("n-8645b1f428b1eeda" ∈ p.ids))) = true := by
    decide +kernel
  obtain ⟨⟨r, marks⟩, hreached, htest⟩ := (Option.any_eq_true _ _).mp hrun
  simp only [Bool.and_eq_true, decide_eq_true_eq] at htest
  obtain ⟨⟨hplan, hphase, hpending, htotal, hcompleted⟩, hnode⟩ := htest
  obtain ⟨p, hp, hnode⟩ := (Option.any_eq_true _ _).mp hnode
  have hover := Phase.eq_over_of_over? hphase
  have hcourse := course_of_taken? (fun _ _ => trivial) hreached .start
  rw [List.nil_append] at hcourse
  exact ⟨r, marks, p, hcourse, rfl, hplan, hover, hp, of_decide_eq_true hnode, hpending, htotal,
    hcompleted⟩

end Run

end PlanRunner
