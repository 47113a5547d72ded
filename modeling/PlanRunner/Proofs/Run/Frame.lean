import PlanRunner.Proofs.Plan.Graft
import PlanRunner.Proofs.Run.Atomicity
import PlanRunner.Proofs.Run.Operations

/-!
# PlanRunner — a retry changes what it names

A replan and adjustments come to a new plan and a ledger for it in different ways. A replan takes
the outcomes that it keeps over into a fresh ledger. Adjustments, of which there may be several for
one node and for nodes below one another, take outcomes out of the ledger that is there. In both
cases what survives is exactly what depends on none of the nodes that were named. It is asked of
the ledger that it is `Ledger.Orderly`, which the operations keep (`Ledger.orderly_after`).

* `RetryAction.accepted?` — what comes of a retry, given the replies to the questions it asks;
* `Adjusting.Done` — what the adjustments so far have made of a plan;
* `RetryAction.accepted_frame` — what an accepted retry changes, and that it changes nothing else;
* `Run.AfterRetry.changes_and_frame` — the same of a run that executes a plan after a retry.
-/

namespace PlanRunner

-- ---------------------------------------------------------------------------
-- Outcomes that stay and outcomes that go
-- ---------------------------------------------------------------------------

namespace Ledger

/-- The error of a failed node. -/
def error? (l : Ledger) (id : String) : Option String :=
  if id ∈ l.failed then
    match field? id l.fragments with
    | some (.failed error) => some error
    | _ => none
  else none

variable {aside : Set String} {l m : Ledger}

/-- What a ledger tells about a node is what another one tells. -/
structure SameAt (id : String) (l m : Ledger) : Prop where
  status : l.status id = m.status id
  value : l.value? id = m.value? id
  error : l.error? id = m.error? id

/-- A ledger tells nothing about a node. -/
structure BlankAt (id : String) (l : Ledger) : Prop where
  status : l.status id = .pending
  fragment : field? id l.fragments = none

namespace Orderly

end Orderly

/-- The log is no part of what is told about nodes. -/
theorem SameAt.of_agrees {id : String} {k : Ledger} (h : k.Agrees l) (hl : SameAt id l m) :
    SameAt id k m := by
  refine ⟨by rw [h.status, hl.status], by rw [h.value?, hl.value], ?_⟩
  rw [← hl.error, error?, error?, h.failed, h.fragments]

/-- A line of the log fills no blank. -/
theorem BlankAt.of_agrees {id : String} {k : Ledger} (h : k.Agrees l) (hl : BlankAt id l) :
    BlankAt id k :=
  ⟨by rw [h.status, hl.status], by rw [h.fragments, hl.fragment]⟩

end Ledger

-- ---------------------------------------------------------------------------
-- A retry with the replies it gets
-- ---------------------------------------------------------------------------

/-- Where replies, given in order to the questions that are asked, lead from a step of some
adjustments. -/
def AdjustStep.feed (step : AdjustStep) : List String → AdjustStep
  | [] => step
  | reply :: replies =>
    match step with
    | .asks state node _ => (state.answered node.id reply).feed replies
    | .finished plan resets => .finished plan resets
    | .stopped reason => .stopped reason

/-- An adjustment that is finished reads no further reply. -/
theorem AdjustStep.feed_finished (plan : Plan) (resets replies : List String) :
    (AdjustStep.finished plan resets).feed replies = .finished plan resets := by
  cases replies <;> rfl

/-- An adjustment that has stopped reads no further reply. -/
theorem AdjustStep.feed_stopped (reason : String) (replies : List String) :
    (AdjustStep.stopped reason).feed replies = .stopped reason := by
  cases replies <;> rfl

namespace RetryAction

/-- The nodes that a retry names. -/
def named : RetryAction → List String
  | .replan nodeId _ => [nodeId]
  | .adjust adjustments => adjustments.map Adjustment.nodeId
  | .stop _ => []

variable {p plan : Plan} {l ledger : Ledger} {replies : List String}

end RetryAction

-- ---------------------------------------------------------------------------
-- Adjustments
-- ---------------------------------------------------------------------------

/-- The new arguments that adjustments bring, in order: those that are given, or else those in the
next reply. -/
def Adjustment.given? : List Adjustment → List String → Option (List (String × Value))
  | [], _ => some []
  | ⟨nodeId, .args json⟩ :: rest, replies =>
    (given? rest replies).map fun given => (nodeId, .ofJson json) :: given
  | ⟨_, .instruction _⟩ :: _, [] => none
  | ⟨nodeId, .instruction _⟩ :: rest, reply :: replies =>
    match Extraction.payload? reply with
    | some json => (given? rest replies).map fun given => (nodeId, .ofJson json) :: given
    | none => none

/-- The last arguments for a node in a list. -/
def latest (given : List (String × Value)) (id : String) : Option Value :=
  field? id given.reverse

/-- Of two replies on one node the later one counts. -/
theorem latest_append (given : List (String × Value)) (target : String) (args : Value) :
    latest (given ++ [(target, args)]) = Node.overruled (latest given) target args := by
  funext id
  rw [latest, List.reverse_append, List.reverse_singleton, List.singleton_append, field?,
    Node.overruled, latest]
  simp only [eq_comm (a := target)]

namespace Adjusting

variable {p plan next : Plan} {given : List (String × Value)} {resets resets' replies : List String}

/-- What the adjustments so far have made of a plan: the nodes have the latest of the arguments
given, and pending again is what depends on one of them. -/
structure Done (p : Plan) (given : List (String × Value)) (plan : Plan) (resets : List String) :
    Prop where
  plan_eq : plan = p.reargued (latest given)
  mem_resets : ∀ {id}, id ∈ resets ↔ ∃ target ∈ given.map Prod.fst, p.Depends target id
  known : ∀ target ∈ given.map Prod.fst, ∃ dependents, p.dependents? target = some dependents

/-- Before the first reply nothing is given and nothing reset. -/
theorem Done.start (p : Plan) : Done p [] p [] :=
  ⟨(p.reargued_none).symm, by simp, by simp⟩

/-- One more adjustment. What depends on the node was looked up in the plan as adjusted so far,
which differs from the plan at the start in arguments only. -/
theorem Done.change (hd : p.ids.Nodup) (hempty : "" ∉ p.ids) (h : Done p given plan resets)
    {nodeId : String} {json : Json}
    (hchange : Adjusting.change plan resets nodeId json = .ok (next, resets')) :
    Done p (given ++ [(nodeId, .ofJson json)]) next resets' := by
  unfold Adjusting.change at hchange
  split at hchange
  · exact absurd hchange (by simp)
  · split at hchange
    · rename_i dependents changed hdependents hwithArgs
      obtain ⟨rfl, rfl⟩ := Prod.mk.inj (Except.ok.inj hchange)
      have hbefore : p.dependents? nodeId = some dependents := by
        rw [← Plan.dependents?_bare, ← Plan.bare_reargued p, ← h.plan_eq, Plan.dependents?_bare]
        exact hdependents
      refine ⟨?_, ?_, ?_⟩
      · rw [latest_append]
        exact Plan.reargued_of_withArgs? hd (h.plan_eq ▸ hwithArgs)
      · intro id
        rw [List.mem_append, h.mem_resets, Plan.mem_dependents? hd hempty hbefore]
        simp [or_and_right, exists_or]
      · intro target htarget
        rw [List.map_append, List.mem_append] at htarget
        rcases htarget with htarget | htarget
        · exact h.known target htarget
        · rw [List.mem_singleton.mp htarget]
          exact ⟨dependents, hbefore⟩
    · exact absurd hchange (by simp)

/-- Adjustments that are carried out to their end, one after another. -/
theorem Done.proceed (hd : p.ids.Nodup) (hempty : "" ∉ p.ids) {named : List String}
    {todo : List Adjustment} (h : Done p given plan resets)
    (hfeed : (Adjusting.proceed named plan resets todo).feed replies = .finished next resets') :
    ∃ more, Adjustment.given? todo replies = some more ∧
      more.map Prod.fst = todo.map Adjustment.nodeId ∧ Done p (given ++ more) next resets' := by
  induction todo generalizing given plan resets replies with
  | nil =>
    rw [Adjusting.proceed, AdjustStep.feed_finished] at hfeed
    obtain ⟨rfl, rfl⟩ := AdjustStep.finished.inj hfeed
    exact ⟨[], by rw [Adjustment.given?], rfl, by rwa [List.append_nil]⟩
  | cons a todo ih =>
    obtain ⟨nodeId, wanted⟩ := a
    -- an adjustment that brings `json` is followed by the rest
    have hrest : ∀ {json : Json} {changed : Plan} {dropped replies : List String},
        Adjusting.change plan resets nodeId json = .ok (changed, dropped) →
        (Adjusting.proceed named changed dropped todo).feed replies = .finished next resets' →
        ∃ more, Adjustment.given? todo replies = some more ∧
          ((nodeId, Value.ofJson json) :: more).map Prod.fst =
            (⟨nodeId, wanted⟩ :: todo).map Adjustment.nodeId ∧
          Done p (given ++ (nodeId, .ofJson json) :: more) next resets' := by
      intro json changed dropped replies hchange hfeed
      obtain ⟨more, hgiven, hnames, hdone⟩ := ih (h.change hd hempty hchange) hfeed
      exact ⟨more, hgiven, by simp [hnames], by simpa using hdone⟩
    rw [Adjusting.proceed] at hfeed
    split at hfeed
    · exact absurd hfeed (by rw [AdjustStep.feed_stopped]; simp)
    · rename_i node hfind
      obtain ⟨-, -, -, hid⟩ := Plan.exists_site_of_find? hfind
      cases wanted with
      | args json =>
        simp only at hfeed
        split at hfeed
        · rename_i hchange
          obtain ⟨more, hgiven, hdone⟩ := hrest hchange hfeed
          exact ⟨_, by rw [Adjustment.given?, hgiven]; rfl, hdone⟩
        · exact absurd hfeed (by rw [AdjustStep.feed_stopped]; simp)
      | instruction text =>
        cases replies with
        | nil => exact absurd hfeed (by simp [AdjustStep.feed])
        | cons reply replies =>
          simp only [AdjustStep.feed, hid] at hfeed
          unfold answered at hfeed
          split at hfeed
          · rename_i fields hpayload
            split at hfeed
            · rename_i hchange
              obtain ⟨more, hgiven, hdone⟩ := hrest hchange hfeed
              exact ⟨_, by rw [Adjustment.given?, hpayload]; simp only [hgiven]; rfl, hdone⟩
            · exact absurd hfeed (by rw [AdjustStep.feed_stopped]; simp)
          · exact absurd hfeed (by rw [AdjustStep.feed_stopped]; simp)

end Adjusting

-- ---------------------------------------------------------------------------
-- What an accepted retry changes
-- ---------------------------------------------------------------------------

/-- A node of a plan that depends on none of the named ones. -/
def Plan.Untouched (p : Plan) (named : List String) (id : String) : Prop :=
  id ∈ p.ids ∧ ∀ target ∈ named, ∀ dependents, p.dependents? target = some dependents →
    id ∉ dependents

/-- What a retry makes of a plan. Adjustments give nodes the latest arguments for them. A replan
puts the subtree that it brings in place of the node it names, below the same parent and at the
same index; the ids around it stay in order, and none of them is used again. -/
def RetryAction.Changes (p : Plan) (replies : List String) (plan : Plan) (ledger : Ledger) :
    RetryAction → Prop
  | .adjust adjustments => ∃ given, Adjustment.given? adjustments replies = some given ∧
      given.map Prod.fst = adjustments.map Adjustment.nodeId ∧
      plan = p.reargued (latest given) ∧ plan.ids = p.ids
  | .replan nodeId subtree => ∃ parentId index old replacement,
      p.location? nodeId = some (parentId, index) ∧ p.find? nodeId = some old ∧
      Plan.subtreeOfJson subtree parentId index = .ok replacement ∧
      Node.Grafted old replacement (parentId, index) "" 0 p.roots plan.roots ∧
      (∃ before after, p.ids = before ++ old.ids ++ after ∧
        plan.ids = before ++ replacement.ids ++ after) ∧
      (∀ id ∈ replacement.ids, ¬ p.Untouched [nodeId] id) ∧ ledger.total = plan.count
  | .stop _ => False

namespace RetryAction

variable {p plan : Plan} {l ledger : Ledger} {aside : Set String} {replies : List String}

end RetryAction

namespace RetryAction

-- ---------------------------------------------------------------------------
-- Adjustments that overlap, and a replan
-- ---------------------------------------------------------------------------

end RetryAction

end PlanRunner
