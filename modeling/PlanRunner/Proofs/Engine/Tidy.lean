import PlanRunner.Proofs.Engine.Coherence
import PlanRunner.Proofs.Json.Reading
import PlanRunner.Proofs.Plan.Stored
import PlanRunner.Proofs.Run.Event

/-!
# PlanRunner — the plan of a run is read back

All that a run learns from language models is text. JSON in it is well-formed once it has been read,
and from there on everything stays so: the plan that is built, the subtrees and arguments that come
in later, and adjustments that wait for an answer. So a model that is shown the plan of a run and
repeats it brings the same plan again.

* `Extraction.sound_of_payload?`, `RetryAction.sound_ofReply` — replies bring well-formed JSON;
* `Run.Tidy`, `Run.Event.tidy` — what holds of a run between two steps;
* `Engine.plan_read_back` — the plan of an active run is what its stored form is read as.
-/

namespace PlanRunner

-- ---------------------------------------------------------------------------
-- Replies
-- ---------------------------------------------------------------------------

namespace Extraction

/-- A payload that is the whole reply is one that the parser has read. -/
theorem sound_of_whole? {cs : List Char} {json : Json} (h : whole? cs = some json) : json.Sound := by
  unfold whole? at h
  split at h
  · rename_i hparse
    split at h
    · obtain rfl := Option.some.inj h
      exact Json.sound_of_parse? hparse
    · exact absurd h (by simp)
  · exact absurd h (by simp)

/-- The payload of a fence is read by the parser too. -/
theorem sound_of_fenced? {fuel : Nat} {cs : List Char} {json : Json}
    (h : fenced? fuel cs = some json) : json.Sound := by
  -- one fence after the other, until the body of one is a value
  induction fuel generalizing cs with
  | zero => exact absurd h (by simp [fenced?])
  | succ fuel ih =>
    rw [fenced?] at h
    split at h
    · exact absurd h (by simp)
    · split at h
      · exact absurd h (by simp)
      · split at h
        · rename_i hparse
          obtain rfl := Option.some.inj h
          exact Json.sound_of_parse? hparse
        · exact ih h

/-- The payload of a span is what the parser made of it. -/
theorem sound_of_spanned? {cs : List Char} {json : Json} (h : spanned? cs = some json) :
    json.Sound := by
  -- one starting position after the other, until a span is a value
  induction cs with
  | nil => exact absurd h (by simp [spanned?])
  | cons c cs ih =>
    rw [spanned?] at h
    split at h
    · rename_i hhere
      obtain rfl := Option.some.inj h
      split at hhere
      · obtain ⟨span, -, hparse⟩ := Option.bind_eq_some_iff.mp hhere
        exact Json.sound_of_parse? hparse
      · exact absurd hhere (by simp)
    · exact ih h

/-- The payload of a reply is well-formed. -/
theorem sound_of_payload? {reply : String} {json : Json} (h : payload? reply = some json) :
    json.Sound := by
  unfold payload? payloadChars? at h
  simp only at h
  split at h
  · rename_i hwhole
    obtain rfl := Option.some.inj h
    exact sound_of_whole? hwhole
  · split at h
    · rename_i hfenced
      obtain rfl := Option.some.inj h
      exact sound_of_fenced? hfenced
    · exact sound_of_spanned? h

end Extraction

/-- The arguments that an adjustment brings are well-formed. -/
def Adjustment.Sound (a : Adjustment) : Prop :=
  ∀ json, a.change = .args json → json.Sound

namespace RetryAction

/-- The JSON that a retry brings is well-formed. -/
def Sound : RetryAction → Prop
  | .replan _ subtree => subtree.Sound
  | .adjust adjustments => ∀ a ∈ adjustments, a.Sound
  | .stop _ => True

/-- The arguments of an adjustment are part of the reply. -/
theorem sound_adjustment? {json : Json} (hjson : json.Sound) {a : Adjustment}
    (h : adjustment? json = some a) : a.Sound := by
  unfold adjustment? at h
  split at h
  · exact absurd h (by simp)
  · split at h
    · rename_i hargs
      obtain rfl := Option.some.inj h
      intro args heq
      rw [← ArgsChange.args.inj heq]
      exact hjson.get? hargs
    · split at h
      · split at h
        · exact absurd h (by simp)
        · obtain rfl := Option.some.inj h
          exact fun _ heq => ArgsChange.noConfusion heq
      · exact absurd h (by simp)

/-- The subtree of a replan is part of the reply. -/
theorem sound_replanOf {json : Json} (hjson : json.Sound) : (replanOf json).Sound := by
  unfold replanOf
  split
  · rename_i hsubtree
    exact hjson.get? hsubtree
  · trivial

/-- The adjustments of a reply have sound arguments. -/
theorem sound_adjustOf {json : Json} (hjson : json.Sound) : (adjustOf json).Sound := by
  unfold adjustOf
  simp only
  split
  · rename_i items hitems
    split
    · trivial
    · intro a ha
      obtain ⟨item, hitem, hadjustment⟩ := List.mem_filterMap.mp ha
      have helems : Json.SoundElems items := hjson.get? hitems
      exact sound_adjustment? (helems.of_mem hitem) hadjustment
  · trivial

/-- What a language model proposes for a retry is well-formed. -/
theorem sound_ofReply (reply : String) : (ofReply reply).Sound := by
  unfold ofReply
  split
  · trivial
  · rename_i hpayload
    -- what the action takes out of the payload is as sound as the payload
    have hjson := Extraction.sound_of_payload? hpayload
    simp only
    split
    · exact sound_replanOf hjson
    · split
      · exact sound_adjustOf hjson
      · split
        · trivial
        · trivial

end RetryAction

-- ---------------------------------------------------------------------------
-- Adjustments
-- ---------------------------------------------------------------------------

/-- The plan with the adjustments so far has tidy nodes, and those that are left are well-formed. -/
structure Adjusting.Tidy (a : Adjusting) : Prop where
  plan : Node.TidyAll a.plan.roots
  todo : ∀ adjustment ∈ a.todo, adjustment.Sound

def AdjustStep.Tidy : AdjustStep → Prop
  | .finished plan _ => Node.TidyAll plan.roots
  | .asks state _ _ => state.Tidy
  | .stopped _ => True

namespace Adjusting

/-- Sound arguments leave a tidy plan tidy. -/
theorem tidyAll_change {plan next : Plan} {resets resets' : List String} {nodeId : String} {args : Json}
    (hp : Node.TidyAll plan.roots) (hargs : args.Sound)
    (h : change plan resets nodeId args = .ok (next, resets')) : Node.TidyAll next.roots := by
  unfold change at h
  split at h
  · exact absurd h (by simp)
  · rename_i hobject
    split at h
    · rename_i hwithArgs
      obtain ⟨rfl, -⟩ := Prod.mk.inj (Except.ok.inj h)
      have hedit : (Edit.withArgs nodeId (.ofJson args)).Sound := ⟨args, hargs, by simpa using hobject, rfl⟩
      exact Edit.tidyAll hp hedit hwithArgs
    · exact absurd h (by simp)

/-- Working off sound adjustments leaves the plan tidy, as far as it gets. -/
theorem tidy_proceed (named : List String) {todo : List Adjustment} {plan : Plan}
    {resets : List String} (hp : Node.TidyAll plan.roots) (htodo : ∀ a ∈ todo, a.Sound) :
    (proceed named plan resets todo).Tidy := by
  -- the plan changes on the way, so the induction is on the adjustments for every plan
  induction todo generalizing plan resets with
  | nil => exact hp
  | cons a todo ih =>
    obtain ⟨nodeId, wanted⟩ := a
    rw [List.forall_mem_cons] at htodo
    rw [proceed]
    split
    · trivial
    · split
      · exact ⟨hp, htodo.2⟩
      · rename_i json
        split
        · rename_i hchange
          exact ih (tidyAll_change hp (htodo.1 json rfl) hchange) htodo.2
        · trivial

/-- The arguments of a reply are sound, so the adjustment stays tidy. -/
theorem Tidy.answered {a : Adjusting} (h : a.Tidy) (nodeId reply : String) :
    (a.answered nodeId reply).Tidy := by
  unfold Adjusting.answered
  split
  · rename_i hpayload
    split
    · rename_i hchange
      exact tidy_proceed a.named
        (tidyAll_change h.plan (Extraction.sound_of_payload? hpayload) hchange) h.todo
    · trivial
  · trivial

end Adjusting

/-- A replan is an edit, so it leaves tidy nodes. -/
theorem tidyAll_of_replan {p plan : Plan} {l ledger : Ledger} {nodeId : String} {subtree : Json}
    (hp : Node.TidyAll p.roots) (hsubtree : subtree.Sound)
    (h : replan p l nodeId subtree = .again plan ledger) : Node.TidyAll plan.roots := by
  obtain ⟨_, _, -, hrun, -, -⟩ := replan_eq_again_iff.mp h
  have hedit : (Edit.replan nodeId subtree).Sound := hsubtree
  exact Edit.tidyAll hp hedit hrun

-- ---------------------------------------------------------------------------
-- Runs
-- ---------------------------------------------------------------------------

/-- Adjustments that wait for the answer to a question are tidy. -/
def Question.Tidy : Question → Prop
  | .arguments _ a _ => a.Tidy
  | _ => True

def Phase.Tidy : Phase → Prop
  | .asking question _ => question.Tidy
  | _ => True

namespace Run

variable {σ : Type} {s : Services σ} {around : Surroundings σ} {r : Run} {x : Surroundings σ × Run}

/-- What a run knows was read from well-formed JSON. -/
structure Tidy (r : Run) : Prop where
  plan : Node.TidyAll r.planOrEmpty.roots
  phase : r.phase.Tidy

/-- A run starts without a plan, which is tidy. -/
theorem Tidy.start (id query : String) (request : Facts) (nowMs : Nat) :
    (Run.start id query request nowMs).Tidy := ⟨trivial, trivial⟩

theorem Tidy.cancel (h : r.Tidy) (nowMs : Nat) : (r.cancel nowMs).Tidy := ⟨h.plan, h.phase⟩

/-- Putting a question does not touch the plan. -/
theorem Tidy.ask (h : r.Tidy) (question : Question) (hquestion : question.Tidy) (body : String) :
    (ask s around r question body).2.Tidy := by
  obtain ⟨answer, hask⟩ := exists_ask s around r question body
  rw [hask]
  exact ⟨h.plan, hquestion⟩

/-- Adjustments that go on stay tidy: they are read off a reply, or the answer to one of them is. -/
theorem Adjusts.tidy {reason : String} {named : List String} {next : AdjustStep}
    (h : Adjusts r reason named next) (hr : r.Tidy) : next.Tidy := by
  cases h with
  | @begins reply answer adjustments hphase haction =>
    have hsound : (RetryAction.adjust adjustments).Sound := haction ▸ RetryAction.sound_ofReply reply
    exact Adjusting.tidy_proceed _ hr.plan hsound
  | goesOn hphase reply =>
    have hwaiting := hr.phase
    rw [hphase] at hwaiting
    exact Adjusting.Tidy.answered hwaiting _ reply

/-- A question that a step raises carries no more than the plan, or an adjustment that is tidy. -/
theorem Raises.tidy {question : Question} (h : Raises r question) (hr : r.Tidy) : question.Tidy := by
  cases h with
  | directCheck _ => trivial
  | directAnswer _ => trivial
  | planAtOnce _ => trivial
  | planInstead _ => trivial
  | arguments hadjusts => exact hadjusts.tidy hr

/-- A plan that is taken over is read off a reply, or it is an edited one. -/
theorem Adopts.tidyAll {plan : Plan} {ledger : Ledger} (h : Adopts r plan ledger) (hr : r.Tidy) :
    Node.TidyAll plan.roots := by
  cases h with
  | planned _ hplan =>
    unfold Plan.ofReply at hplan
    split at hplan
    · exact absurd hplan (by simp)
    · rename_i hpayload
      exact (Plan.tidyAll_of_ofJson (Extraction.sound_of_payload? hpayload) hplan).2
  | @replanned _ reply _ _ _ _ _ _ haction hreplan =>
    have hsound := RetryAction.sound_ofReply reply
    rw [haction] at hsound
    exact tidyAll_of_replan hr.plan hsound hreplan
  | adjusted hadjusts => exact hadjusts.tidy hr

/-- No step makes a plan untidy: what comes into one was read from a reply. -/
theorem Event.tidy {m : Option Mark} (h : Event s around r m x) (hr : r.Tidy) : x.2.Tidy := by
  cases h with
  | @asks question logs context body hraises hlogs =>
    have hlogged : (r.withLogs logs).Tidy := ⟨hr.plan, hr.phase⟩
    exact hlogged.ask _ (hraises.tidy hr) body
  | breaksOff error hend hdone => exact ⟨hr.plan, trivial⟩
  | stops reason why hstage => exact ⟨hr.plan, trivial⟩
  | answersDirectly text hphase => exact ⟨trivial, trivial⟩
  -- only an adoption brings in a plan from a reply
  | adopts hadopts => exact ⟨hadopts.tidyAll hr, trivial⟩
  | walks hphase hturn => exact ⟨hr.plan, trivial⟩
  | consults hexecuted hpolicy =>
    have htext : r.aggregated.Tidy := ⟨hr.plan, hr.phase⟩
    exact htext.ask .evaluation trivial _
  | accepts hjudges hsufficient =>
    obtain ⟨text, rfl⟩ := hjudges.exists_eq
    exact ⟨hr.plan, trivial⟩
  | exhausts hjudges hinsufficient hspent =>
    obtain ⟨text, rfl⟩ := hjudges.exists_eq
    exact ⟨hr.plan, trivial⟩
  | @reconsiders q verdict hjudges hinsufficient hleft body =>
    have hcounted : (q.reconsidered verdict).Tidy := by
      obtain ⟨text, rfl⟩ := hjudges.exists_eq
      exact ⟨hr.plan, hr.phase⟩
    exact hcounted.ask (.strategy verdict.reason) trivial body

/-- A step keeps the plan of its run tidy. -/
theorem Step.tidy (hstep : r.Step s around x) (h : r.Tidy) : x.2.Tidy := by
  obtain ⟨m, hevent⟩ := hstep.event
  exact hevent.tidy h

end Run

-- ---------------------------------------------------------------------------
-- Engines
-- ---------------------------------------------------------------------------

namespace Engine

variable {σ : Type} {s : Services σ} {e e' : Engine σ}

/-- A step of the engine keeps the plan of the active run tidy. -/
theorem Step.tidy (hstep : Step s e e') (h : ∀ {r}, e.active = some r → r.Tidy) {r : Run}
    (hactive : e'.active = some r) : r.Tidy := by
  cases hstep with
  | accept haccept =>
    obtain ⟨-, hstarted, -⟩ := accept_eq_ok haccept
    obtain rfl := Option.some.inj (hstarted.symm.trans hactive)
    exact .start _ _ _ _
  | run hrun hstep =>
    obtain rfl := Option.some.inj hactive
    exact hstep.tidy (h hrun)
  | finish _ _ => exact absurd hactive (by simp)
  | cancel =>
    unfold Engine.cancel at hactive
    split at hactive
    · exact h hactive
    · rename_i hrun
      obtain rfl := Option.some.inj hactive
      exact (h hrun).cancel _
  | close => exact h hactive
  | wait untilMs => exact h hactive

/-- The plan of an active run is always tidy. -/
theorem Reaches.tidy {settings : Settings} {server : Facts} {world : σ} {nowMs : Nat}
    (h : Reaches s (.start settings server world nowMs) e) :
    ∀ {r}, e.active = some r → r.Tidy := by
  induction h with
  | refl => exact fun hactive => absurd hactive (by simp)
  | tail _ hstep ih => exact fun hactive => hstep.1.tidy ih hactive

/-- **The plan of a run is read back.** Whatever an engine has done, whatever it has been told by
language models, and however often its run has been planned and retried: the stored form of the plan
of the run, with which a language model is asked for a strategy, is read as this plan. The plan has
no collisions, and it is not the empty one that a direct answer leaves. -/
theorem plan_read_back {settings : Settings} {server : Facts} {world : σ} {nowMs : Nat}
    (h : Reaches s (.start settings server world nowMs) e) {r : Run} (hactive : e.active = some r)
    (hroots : r.planOrEmpty.roots ≠ []) :
    Plan.ofJson r.planOrEmpty.record = .ok r.planOrEmpty ∧
      Plan.ofJson r.planOrEmpty.record.sorted = .ok r.planOrEmpty ∧
      ∀ rename, Plan.ofJson (r.planOrEmpty.renamed rename).record = .ok r.planOrEmpty := by
  obtain ⟨hsound, hfree⟩ := h.sound
  have hplaced := (hsound.run hactive).placed
  exact Plan.ofJson_record_of_tidyAll hroots (h.tidy hactive).plan hplaced
    (hplaced.ids_nodup (hfree r hactive))

end Engine

end PlanRunner
