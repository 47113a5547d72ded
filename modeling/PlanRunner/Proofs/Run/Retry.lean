import PlanRunner.Proofs.Plan.Dependents
import PlanRunner.Proofs.Run.Schedule
import PlanRunner.Run.Retry

/-!
# PlanRunner — a retry comes to what a fresh execution comes to

A retry keeps outcomes and executes the rest. What it keeps must be what the changed
plan would bring about itself. This holds because an edit does not reach a node that
does not depend on the edited one: neither the output of its parent nor that of the
sibling before it changes.

* `Plan.mem_evaluate_edit` — outcomes that an edit does not reach;
* `Adjusted`, `Retried` — what adjustments, and a retry, do to plan and ledger;
* `Retried.resumable` — the outcomes that a retry keeps are those of the changed plan;
* `Attempts` — an execution, and any number of retries with an execution each;
* `Attempts.incremental_retry` — the last ledger is that of a fresh execution.
-/

namespace PlanRunner

-- ---------------------------------------------------------------------------
-- What an edit does not reach
-- ---------------------------------------------------------------------------

namespace Node

variable {call : Semantics} {target : String} {change : Node → Node}

/-- A node that is not changed itself is called as before. -/
theorem outcome_edit {n : Node} (h : n.id ≠ target) (parent prev : Option Value) :
    (n.edit target change).outcome call parent prev = n.outcome call parent prev := by
  cases n
  rw [edit, if_neg h]
  rfl

mutual

/-- An outcome of a node that no site with the edited id affects stays. -/
theorem mem_evaluate_edit : ∀ {parent : Option Node} {above : List Nat} {index : Nat} {n : Node}
    {output prev : Option Value} {f : String × Fragment},
    (∀ s ∈ n.sites parent above index, s.node.id = target → ¬ s.Affects f.1) →
    f ∈ n.evaluate call output prev → f ∈ (n.edit target change).evaluate call output prev
  | parent, above, index, ⟨id, layer, function, args, parallel, children⟩, output, prev, f,
      hfar, hf => by
    rw [sites, List.forall_mem_cons] at hfar
    rw [edit]
    split
    · -- every outcome of the edited subtree is one that the edit reaches
      rename_i hid
      have hmem := (evaluate_ids call output prev _).subset (List.mem_map_of_mem hf)
      exact absurd (.inl hmem) (hfar.1 hid)
    · rw [evaluate] at hf ⊢
      split at hf
      · exact hf
      · rcases List.mem_cons.mp hf with rfl | hf
        · exact List.mem_cons_self
        · refine List.mem_cons_of_mem _ ?_
          cases parallel with
          | true => exact mem_evaluateGroup_edit hfar.2 hf
          | false => exact mem_evaluateChain_edit rfl rfl hfar.2 hf

/-- Nor does the edit touch the outcomes of a group that it does not affect. -/
theorem mem_evaluateGroup_edit : ∀ {parent : Option Node} {above : List Nat} {index : Nat}
    {ns : List Node} {output : Option Value} {f : String × Fragment},
    (∀ s ∈ sitesAll parent above index ns, s.node.id = target → ¬ s.Affects f.1) →
    f ∈ evaluateGroup call output ns → f ∈ evaluateGroup call output (editAll target change ns)
  | _, _, _, [], _, _, _, hf => hf
  | parent, above, index, n :: ns, output, f, hfar, hf => by
    rw [sitesAll, List.forall_mem_append] at hfar
    rw [evaluateGroup] at hf
    rw [editAll, evaluateGroup]
    rcases List.mem_append.mp hf with hf | hf
    · exact List.mem_append_left _ (mem_evaluate_edit hfar.1 hf)
    · exact List.mem_append_right _ (mem_evaluateGroup_edit hfar.2 hf)

/-- In a group that runs in order the nodes after the edited one are affected, so it is
enough to look at those before. -/
theorem mem_evaluateChain_edit : ∀ {parent : Node} {above : List Nat} {index : Nat}
    {ns : List Node} {output prev : Option Value} {f : String × Fragment},
    parent.parallel = false → parent.children.drop index = ns →
    (∀ s ∈ sitesAll (some parent) above index ns, s.node.id = target → ¬ s.Affects f.1) →
    f ∈ evaluateChain call output prev ns →
    f ∈ evaluateChain call output prev (editAll target change ns)
  | _, _, _, [], _, _, _, _, _, _, hf => hf
  | parent, above, index, n :: ns, output, prev, f, hchain, hdrop, hfar, hf => by
    -- if this child were the edited one, all outcomes from here on would be reached
    have hid : n.id ≠ target := by
      intro hid
      have hmem := (evaluateChain_ids call output prev _).subset (List.mem_map_of_mem hf)
      have hsite : (⟨some parent, above, index, n⟩ : Site) ∈
          sitesAll (some parent) above index (n :: ns) := by
        rw [sitesAll, sites_eq]
        exact List.mem_append_left _ List.mem_cons_self
      exact hfar _ hsite hid (.inr ⟨parent, rfl, hchain, by rwa [hdrop]⟩)
    have hnext : parent.children.drop (index + 1) = ns := by
      rw [← List.tail_drop, hdrop, List.tail_cons]
    rw [sitesAll, List.forall_mem_append] at hfar
    rw [evaluateChain] at hf
    rw [editAll, evaluateChain, outcome_edit hid]
    rcases List.mem_append.mp hf with hf | hf
    · exact List.mem_append_left _ (mem_evaluate_edit hfar.1 hf)
    · exact List.mem_append_right _ (mem_evaluateChain_edit hchain hnext hfar.2 hf)

end

end Node

/-- An edit does not reach the outcome of a node that does not depend on the edited one. -/
theorem Plan.mem_evaluate_edit {call : Semantics} {p : Plan} {target : String}
    {change : Node → Node} {f : String × Fragment} (hfar : ¬ p.Depends target f.1)
    (hf : f ∈ p.evaluate call) : f ∈ (p.edit target change).evaluate call :=
  @Node.mem_evaluateGroup_edit call target change none [] 0 p.roots none f
    (fun s hs hid haffects => hfar ⟨s, hs, hid, haffects⟩) hf

-- ---------------------------------------------------------------------------
-- Adjustments
-- ---------------------------------------------------------------------------

/-- What adjustments of the nodes in `done` have made of a plan and of the ids that become
pending again. -/
structure Adjusted (p : Plan) (done : List String) (plan : Plan) (resets : List String) : Prop where
  bare : plan.bare = p.bare
  placed : p.Placed → plan.Placed
  reached : ∀ {target id}, target ∈ done → p.Depends target id → id ∈ resets
  kept : ∀ {call f}, f ∈ p.evaluate call → f.1 ∉ resets → f ∈ plan.evaluate call

namespace Adjusted

variable {p plan plan' : Plan} {done resets resets' : List String}

theorem start (p : Plan) : Adjusted p [] p [] :=
  ⟨rfl, id, fun h => absurd h List.not_mem_nil, fun hf _ => hf⟩

/-- New arguments change no id. -/
theorem ids (h : Adjusted p done plan resets) : plan.ids = p.ids := by
  rw [← Plan.ids_bare plan, h.bare, Plan.ids_bare]

/-- The adjusted plan has as many nodes as before. -/
theorem count (h : Adjusted p done plan resets) : plan.count = p.count := by
  rw [Plan.count_eq_length_ids, h.ids, Plan.count_eq_length_ids]

/-- New arguments of one node. -/
theorem change (hd : p.ids.Nodup) (hempty : "" ∉ p.ids) (h : Adjusted p done plan resets)
    {nodeId : String} {args : Json} (hchange : Adjusting.change plan resets nodeId args = .ok (plan', resets')) :
    Adjusted p (done ++ [nodeId]) plan' resets' := by
  unfold Adjusting.change at hchange
  split at hchange
  · exact absurd hchange (by simp)
  · split at hchange
    · rename_i dependents next hdependents hnext
      obtain ⟨rfl, rfl⟩ := Prod.mk.inj (Except.ok.inj hchange)
      -- what depends on the node was computed in the plan adjusted so far, but it is the same
      -- in the plan at the start, from which it differs in arguments only
      have hafter : ∀ {id}, id ∈ dependents ↔ plan.Depends nodeId id :=
        Plan.mem_dependents? (h.ids ▸ hd) (h.ids ▸ hempty) hdependents
      have hbefore : ∀ {id}, id ∈ dependents ↔ p.Depends nodeId id := by
        refine Plan.mem_dependents? hd hempty ?_
        rw [← Plan.dependents?_bare, ← h.bare, Plan.dependents?_bare]
        exact hdependents
      refine ⟨(Plan.bare_withArgs? hnext).trans h.bare, fun hp => (h.placed hp).withArgs? hnext,
        ?_, ?_⟩
      · intro target id htarget hdepends
        rcases List.mem_append.mp htarget with htarget | htarget
        · exact List.mem_append_left _ (h.reached htarget hdepends)
        · rw [List.mem_singleton.mp htarget] at hdepends
          exact List.mem_append_right _ (hbefore.mpr hdepends)
      · intro call f hf hreset
        rw [List.mem_append, not_or] at hreset
        rw [Plan.withArgs?_eq_some hnext]
        exact Plan.mem_evaluate_edit (fun hdepends => hreset.2 (hafter.mpr hdepends))
          (h.kept hf hreset.1)
    · exact absurd hchange (by simp)

end Adjusted

/-- Answers to the questions that are asked lead from a step of some adjustments to their
end. -/
inductive AdjustStep.Settles : AdjustStep → Plan → List String → Prop where
  | finished {plan : Plan} {resets : List String} : Settles (.finished plan resets) plan resets
  | answered {state : Adjusting} {node : Node} {instruction reply : String} {plan : Plan}
      {resets : List String} (h : Settles (state.answered node.id reply) plan resets) :
    Settles (.asks state node instruction) plan resets

/-- The plan that adjustments without questions end with. -/
def AdjustStep.plan? : AdjustStep → Option Plan
  | .finished plan _ => some plan
  | .asks _ _ _ => none
  | .stopped _ => none

/-- An adjustment that has its plan has settled. -/
theorem AdjustStep.settles_of_plan? {step : AdjustStep} {plan : Plan} (h : step.plan? = some plan) :
    ∃ resets, step.Settles plan resets := by
  cases step with
  | finished next resets =>
    obtain rfl := Option.some.inj h
    exact ⟨resets, .finished⟩
  | asks state node instruction => exact absurd h (by simp [AdjustStep.plan?])
  | stopped reason => exact absurd h (by simp [AdjustStep.plan?])

/-- Adjustments that wait for the arguments of a node, `named` being the nodes of all of
them. -/
def Adjusting.Sound (p : Plan) (named : List String) (nodeId : String) (a : Adjusting) : Prop :=
  a.named = named ∧ ∃ done, named = done ++ nodeId :: a.todo.map Adjustment.nodeId ∧
    Adjusted p done a.plan a.resets

def AdjustStep.Sound (p : Plan) (named : List String) : AdjustStep → Prop
  | .finished plan resets => Adjusted p named plan resets
  | .asks state node _ => state.Sound p named node.id
  | .stopped _ => True

namespace Adjusting

variable {p : Plan}

/-- Whatever is still to do is done to a plan in which the nodes named so far have their arguments.
-/
theorem proceed_sound (hd : p.ids.Nodup) (hempty : "" ∉ p.ids) {named : List String}
    {todo : List Adjustment} {done : List String} {plan : Plan} {resets : List String}
    (h : Adjusted p done plan resets) (hnamed : named = done ++ todo.map Adjustment.nodeId) :
    (proceed named plan resets todo).Sound p named := by
  -- Induction on what is still to do; `done` collects the names that were gone through.
  induction todo generalizing done plan resets with
  | nil =>
    rw [List.map_nil, List.append_nil] at hnamed
    rw [hnamed]
    exact h
  | cons a todo ih =>
    obtain ⟨nodeId, wanted⟩ := a
    rw [proceed]
    split
    · trivial
    · -- either the arguments are asked for here, or they are there and the rest follows
      rename_i node hfind
      obtain ⟨-, -, -, hid⟩ := Plan.exists_site_of_find? hfind
      split
      · exact ⟨rfl, done, by rw [hnamed, hid, List.map_cons], h⟩
      · split
        · rename_i hchange
          exact ih (h.change hd hempty hchange) (by rw [hnamed, List.map_cons]; simp)
        · trivial

theorem start_sound (hd : p.ids.Nodup) (hempty : "" ∉ p.ids) (adjustments : List Adjustment) :
    (proceed (adjustments.map Adjustment.nodeId) p [] adjustments).Sound p
      (adjustments.map Adjustment.nodeId) :=
  proceed_sound hd hempty (.start p) rfl

/-- An answer is for the node that was asked about, so the account goes on with it. -/
theorem answered_sound (hd : p.ids.Nodup) (hempty : "" ∉ p.ids) {named : List String}
    {nodeId : String} {a : Adjusting} (h : a.Sound p named nodeId) (reply : String) :
    (a.answered nodeId reply).Sound p named := by
  obtain ⟨hstate, done, hnamed, hadjusted⟩ := h
  unfold answered
  split
  · split
    · rename_i hchange
      rw [hstate]
      exact proceed_sound hd hempty (hadjusted.change hd hempty hchange) (by rw [hnamed]; simp)
    · trivial
  · trivial

end Adjusting

/-- An adjustment that settles has adjusted all the nodes it was to. -/
theorem AdjustStep.Settles.adjusted {p : Plan} (hd : p.ids.Nodup) (hempty : "" ∉ p.ids)
    {named : List String} {step : AdjustStep} {plan : Plan} {resets : List String}
    (h : step.Settles plan resets) (hstep : step.Sound p named) : Adjusted p named plan resets := by
  induction h with
  | finished => exact hstep
  | answered _ ih => exact ih (Adjusting.answered_sound hd hempty hstep _)

-- ---------------------------------------------------------------------------
-- A retry
-- ---------------------------------------------------------------------------

/-- A replan is the edit of the plan, with the outcomes carried over that do not depend on
the replaced node. -/
theorem replan_eq_again_iff {p plan : Plan} {l ledger : Ledger} {nodeId : String} {subtree : Json} :
    replan p l nodeId subtree = .again plan ledger ↔
      ∃ old dropped, p.find? nodeId = some old ∧ (Edit.replan nodeId subtree).run? p = some plan ∧
        p.dependents? nodeId = some dropped ∧
        ledger = (Ledger.carryOver plan.count l (keptIds p dropped)).log
          s!"Replanned {nodeId}: {old.count} node(s) replaced, tree now has {plan.count}" := by
  simp only [Edit.run?_replan_eq_some]
  unfold replan
  -- each test that `replan` makes is one of the facts on the other side
  constructor
  · intro h
    split at h
    · rename_i parentId index old hlocation hfind
      split at h
      · exact absurd h (by simp)
      · rename_i replacement hbuild
        split at h
        · rename_i next dropped hnext hdropped
          obtain ⟨rfl, rfl⟩ := Retry.again.inj h
          exact ⟨old, dropped, hfind, ⟨parentId, index, replacement, hlocation, hbuild, hnext⟩,
            hdropped, rfl⟩
        · exact absurd h (by simp [unknownReplan])
    · exact absurd h (by simp [unknownReplan])
  · rintro ⟨old, dropped, hfind, ⟨parentId, index, replacement, hlocation, hbuild, hnext⟩,
      hdropped, rfl⟩
    simp only [hlocation, hfind, hbuild, hnext, hdropped]

/-- A retry that is accepted, with the ids of the edited nodes and the plan and the ledger
that it leaves. -/
inductive Retried (p : Plan) (l : Ledger) : List String → Plan → Ledger → Prop where
  | replan {nodeId : String} {subtree : Json} {plan : Plan} {ledger : Ledger}
      (h : replan p l nodeId subtree = .again plan ledger) : Retried p l [nodeId] plan ledger
  | adjust {adjustments : List Adjustment} {plan : Plan} {resets : List String}
      (h : (Adjusting.proceed (adjustments.map Adjustment.nodeId) p [] adjustments).Settles plan
        resets) :
    Retried p l (adjustments.map Adjustment.nodeId) plan
      (Adjusting.finish (adjustments.map Adjustment.nodeId) resets l)

/-- Lines of the log are all that the end of adjustments adds to a reset. -/
theorem Adjusting.finish_agrees (named resets : List String) (l : Ledger) :
    (finish named resets l).Agrees (l.reset resets) := by
  have hlog : ∀ (lines : List String) (m : Ledger),
      (lines.foldl (fun l id => l.log s!"Adjusted arguments of {id}") m).Agrees m := by
    intro lines
    induction lines with
    | nil => exact fun m => ⟨rfl, rfl, rfl, rfl, rfl⟩
    | cons line lines ih => exact fun m => (ih _).trans ⟨rfl, rfl, rfl, rfl, rfl⟩
  exact hlog named _

/-- The end of adjustments adds one line for each of them to the log. -/
theorem Adjusting.finish_logs (named resets : List String) (l : Ledger) :
    (finish named resets l).logs = l.logs ++ named.map fun id => s!"Adjusted arguments of {id}" := by
  -- the fold adds a line for each name, after those already there
  have hlog : ∀ (ids : List String) (m : Ledger),
      (ids.foldl (fun l id => l.log s!"Adjusted arguments of {id}") m).logs =
        m.logs ++ ids.map fun id => s!"Adjusted arguments of {id}" := by
    intro ids
    induction ids with
    | nil => simp
    | cons id ids ih =>
      intro m
      rw [List.foldl_cons, ih]
      simp [Ledger.log]
  exact hlog named _

namespace Retried

variable {p plan : Plan} {l ledger : Ledger} {edited : List String}

/-- Ids keep following positions. -/
theorem placed (hp : p.Placed) (hd : p.ids.Nodup) (hempty : "" ∉ p.ids)
    (h : Retried p l edited plan ledger) : plan.Placed := by
  cases h with
  | replan h =>
    obtain ⟨-, -, -, hrun, -⟩ := replan_eq_again_iff.mp h
    exact Edit.placed hp (Edit.unambiguous_of_nodup hd _) hrun
  | adjust h =>
    exact (h.adjusted hd hempty (Adjusting.start_sound hd hempty _)).placed hp

/-- What a retry keeps does not depend on an edited node, and is an outcome of the changed
plan if it was one before. -/
theorem kept (hd : p.ids.Nodup) (hempty : "" ∉ p.ids) {aside : Set String} (hl : l.Orderly aside)
    (h : Retried p l edited plan ledger) {f : String × Fragment} (hf : f ∈ ledger.fragments) :
    f ∈ l.fragments ∧ (∀ target ∈ edited, ¬ p.Depends target f.1) ∧
      ∀ call, f ∈ p.evaluate call → f ∈ plan.evaluate call := by
  cases h with
  | replan h =>
    obtain ⟨old, dropped, -, hrun, hdropped, rfl⟩ := replan_eq_again_iff.mp h
    obtain ⟨_, _, _, -, -, hreplace⟩ := Edit.run?_replan_eq_some.mp hrun
    -- what is carried over are outcomes of nodes that do not depend on the replaced one
    obtain ⟨hkeep, -, hmem⟩ := hl.mem_keptFragments.mp hf
    simp only [keptIds, List.mem_filter, List.contains_eq_mem, Bool.not_eq_true',
      decide_eq_false_iff_not, Plan.mem_dependents? hd hempty hdropped] at hkeep
    refine ⟨hmem, fun target htarget => ?_, fun call hf => ?_⟩
    · rw [List.mem_singleton.mp htarget]
      exact hkeep.2
    · rw [Plan.replace?_eq_some hreplace]
      exact Plan.mem_evaluate_edit hkeep.2 hf
  | @adjust adjustments plan resets h =>
    have hadjusted := h.adjusted hd hempty (Adjusting.start_sound hd hempty _)
    rw [(Adjusting.finish_agrees _ _ _).fragments, Ledger.reset, List.mem_filter] at hf
    have hfar : f.1 ∉ resets := by simpa using hf.2
    exact ⟨hf.1, fun target htarget hdepends => hfar (hadjusted.reached htarget hdepends),
      fun call hevaluate => hadjusted.kept hevaluate hfar⟩

/-- A retry leaves an orderly ledger for the changed plan. -/
theorem orderly (hd : p.ids.Nodup) (hempty : "" ∉ p.ids) {aside : Set String} (hl : l.Orderly aside)
    (htotal : l.total = p.count) (hrunning : l.running = []) (h : Retried p l edited plan ledger) :
    ledger.Orderly aside ∧ ledger.total = plan.count ∧ ledger.running = [] := by
  cases h with
  | replan h =>
    obtain ⟨old, dropped, -, -, -, rfl⟩ := replan_eq_again_iff.mp h
    exact ⟨(hl.carryOver _ _).log _, rfl, rfl⟩
  -- a replan carries over what it keeps; an adjustment resets what it changes
  | @adjust adjustments plan resets h =>
    have hadjusted := h.adjusted hd hempty (Adjusting.start_sound hd hempty _)
    have hfinish := Adjusting.finish_agrees (adjustments.map Adjustment.nodeId) resets l
    refine ⟨hfinish.orderly (hl.reset resets), ?_, ?_⟩
    · rw [hfinish.total, hadjusted.count]
      exact htotal
    · rw [hfinish.running, Ledger.reset, hrunning]
      rfl

/-- The changed plan may be executed from the ledger that a retry leaves. -/
theorem resumable {call : Semantics} (hd : p.ids.Nodup) (hempty : "" ∉ p.ids)
    (hl : l.Agrees (p.evaluated call)) (h : Retried p l edited plan ledger) :
    plan.Resumable call ledger := by
  have horderly := hl.orderly (p.evaluated_orderly call)
  obtain ⟨hledger, htotal, hrunning⟩ := h.orderly hd hempty horderly
    (hl.total.trans (p.evaluated_total call)) (hl.running.trans (p.evaluated_running call))
  refine ⟨hledger, htotal, hrunning, fun hf => ?_⟩
  obtain ⟨hmem, -, hevaluate⟩ := h.kept hd hempty horderly hf
  rw [hl.fragments] at hmem
  exact hevaluate call ((Plan.mem_evaluated call hd).mp hmem)

end Retried

-- ---------------------------------------------------------------------------
-- Any number of retries
-- ---------------------------------------------------------------------------

theorem Plan.Placed.empty_notMem {p : Plan} (hp : p.Placed) : "" ∉ p.ids := by
  intro h
  obtain ⟨x, hx⟩ := hp.hashId_of_mem_ids h
  exact Plan.hashId_ne (by decide) hx.symm

open Traversal in
/-- A plan built from JSON is executed, and after each of any number of retries the changed
plan is executed from the ledger that the retry leaves. The list has the plans, the latest
first, and the ledger is that at the end of the latest execution. Between an execution and
a retry lines may be added to the log. -/
inductive Attempts {σ : Type} (d : Dispatch σ) : List Plan → Ledger → Prop where
  | first {json : Json} {p : Plan} {sh : Shared σ} {t : Traversal σ}
      (hplan : Plan.ofJson json = .ok p) (hfresh : sh.ledger.Agrees (.start p.count))
      (hcancel : sh.cancelledAt = none) (hturns : Turns d (.start p sh) t)
      (hover : t.isOver = true) : Attempts d [p] t.shared.ledger
  | again {p plan : Plan} {ps : List Plan} {l judged : Ledger} {edited : List String}
      {sh : Shared σ} {t : Traversal σ} (hattempts : Attempts d (p :: ps) l)
      (hjudged : judged.Agrees l) (hretry : Retried p judged edited plan sh.ledger)
      (hcancel : sh.cancelledAt = none) (hturns : Turns d (.start plan sh) t)
      (hover : t.isOver = true) : Attempts d (plan :: p :: ps) t.shared.ledger

namespace Attempts

open Traversal

variable {σ : Type} {d : Dispatch σ} {call : Semantics} {p : Plan} {ps : List Plan} {l : Ledger}

/-- Every attempt ends with the ledger of its plan evaluated in order. -/
theorem agrees (hcall : d.registry.Computes call) (h : Attempts d (p :: ps) l)
    (hfree : ∀ q ∈ p :: ps, q.CollisionFree) : p.Placed ∧ l.Agrees (p.evaluated call) := by
  generalize hplans : p :: ps = plans at h hfree
  -- Induction on the attempts: the plan of each is placed, and what its execution left agrees
  -- with its evaluation.
  induction h generalizing p ps with
  | first hplan hfresh hcancel hturns hover =>
    obtain ⟨rfl, rfl⟩ := List.cons_eq_cons.mp hplans
    obtain ⟨hplaced, hd⟩ := Plan.Placed.ofJson hplan
    exact ⟨hplaced, turns_agree hcall hd hcancel (Plan.resumable_of_fresh call hfresh) hturns hover⟩
  | @again q plan qs l judged edited sh t _ hjudged hretry hcancel hturns hover ih =>
    obtain ⟨rfl, rfl⟩ := List.cons_eq_cons.mp hplans
    obtain ⟨hfreeplan, hfree⟩ := List.forall_mem_cons.mp hfree
    obtain ⟨hplaced, hagrees⟩ := ih rfl hfree
    have hd := hplaced.ids_nodup (hfree q List.mem_cons_self)
    have hnext := hretry.placed hplaced hd hplaced.empty_notMem
    have hresumable := hretry.resumable hd hplaced.empty_notMem (hjudged.trans hagrees)
    exact ⟨hnext, turns_agree hcall (hnext.ids_nodup hfreeplan) hcancel hresumable hturns hover⟩

/-- Whatever plan is executed, and from whichever ledger, the execution can be brought to
its end. -/
theorem exists_execution (hpermits : d.permits ≠ some 0) (p : Plan) (sh : Shared σ) :
    ∃ t, Turns d (.start p sh) t ∧ t.isOver = true :=
  exists_end hpermits (Walk.liveAll_fresh p.roots none)

/-- A plan that can be read can be executed. -/
theorem exists_first (hpermits : d.permits ≠ some 0) (world : σ) {json : Json}
    (hplan : Plan.ofJson json = .ok p) : ∃ l, Attempts d [p] l := by
  obtain ⟨t, hturns, hover⟩ :=
    exists_execution hpermits p ⟨.start p.count, world, [], 0, none, 0⟩
  exact ⟨_, .first hplan ⟨rfl, rfl, rfl, rfl, rfl⟩ rfl hturns hover⟩

/-- After every retry there is another execution. -/
theorem exists_again (hpermits : d.permits ≠ some 0) (world : σ) {plan : Plan}
    {edited : List String} {ledger : Ledger} (h : Attempts d (p :: ps) l)
    (hretry : Retried p l edited plan ledger) : ∃ l', Attempts d (plan :: p :: ps) l' := by
  obtain ⟨t, hturns, hover⟩ := exists_execution hpermits plan ⟨ledger, world, [], 0, none, 0⟩
  exact ⟨_, .again h ⟨rfl, rfl, rfl, rfl, rfl⟩ hretry rfl hturns hover⟩

/-- **Retries are incremental.** A plan is executed, changed by any number of accepted
retries, and executed again after each, with layers that compute a function of their calls
and a hash that collides in none of the plans. Then

* the last ledger has the status and the outcome of every node that a fresh execution of
  the last plan ends with, and such an execution has an end;
* a retry that is accepted now leaves every node pending and without outcome that depends
  on an edited node; every outcome it keeps is one that the changed plan brings about; and
  the execution it leads to has an end. -/
theorem incremental_retry (hcall : d.registry.Computes call) (hpermits : d.permits ≠ some 0)
    (h : Attempts d (p :: ps) l) (hfree : ∀ q ∈ p :: ps, q.CollisionFree) :
    (∀ sh : Shared σ, sh.cancelledAt = none → sh.ledger.Agrees (.start p.count) →
      (∃ t, Turns d (.start p sh) t ∧ t.isOver = true) ∧
      ∀ t, Turns d (.start p sh) t → t.isOver = true →
        ∀ id, l.status id = t.shared.ledger.status id ∧
          field? id l.fragments = field? id t.shared.ledger.fragments) ∧
    ∀ (judged ledger : Ledger) (edited : List String) (plan : Plan), judged.Agrees l →
      Retried p judged edited plan ledger →
      (∀ target ∈ edited, ∀ id, p.Depends target id →
        ledger.status id = .pending ∧ ∀ f, (id, f) ∉ ledger.fragments) ∧
      (∀ f ∈ ledger.fragments, f ∈ l.fragments ∧ f ∈ plan.evaluate call) ∧
      ∀ sh : Shared σ, sh.ledger = ledger → ∃ t, Turns d (.start plan sh) t ∧ t.isOver = true := by
  obtain ⟨hplaced, hagrees⟩ := h.agrees hcall hfree
  have hd := hplaced.ids_nodup (hfree p List.mem_cons_self)
  refine ⟨fun sh hcancel hfresh => ⟨exists_execution hpermits p sh, fun t hturns hover id => ?_⟩, ?_⟩
  · have hsame := hagrees.trans
      (turns_agree hcall hd hcancel (Plan.resumable_of_fresh call hfresh) hturns hover).symm
    exact ⟨congrFun hsame.status id, by rw [hsame.fragments]⟩
  · intro judged ledger edited plan hjudged hretry
    have horderly := (hjudged.trans hagrees).orderly (p.evaluated_orderly call)
    have hresumable := hretry.resumable hd hplaced.empty_notMem (hjudged.trans hagrees)
    have hkept : ∀ {f}, f ∈ ledger.fragments → f ∈ judged.fragments ∧
        ∀ target ∈ edited, ¬ p.Depends target f.1 := fun hf =>
      ((hretry.kept hd hplaced.empty_notMem horderly hf).imp_right And.left)
    refine ⟨fun target htarget id hdepends => ?_, fun f hf => ⟨?_, hresumable.recorded hf⟩,
      fun sh _ => exists_execution hpermits plan sh⟩
    · -- a fragment that was kept does not depend on a changed node, so a dependent has none
      have habsent : ∀ f, (id, f) ∉ ledger.fragments := fun f hf =>
        (hkept hf).2 target htarget hdepends
      refine ⟨hresumable.orderly.status_eq_pending habsent ?_, habsent⟩
      rw [hresumable.running]
      exact List.not_mem_nil
    · rw [← hjudged.fragments]
      exact (hkept hf).1

-- ---------------------------------------------------------------------------
-- An adjustment and a replan
-- ---------------------------------------------------------------------------

/-- A root with three children that run in order, of which the second fails. -/
def retryJson : Json :=
  .arr [Plan.callJson "echo" "say" [Plan.callJson "echo" "say" [], Plan.callJson "echo" "fail" [],
    Plan.callJson "echo" "say" []]]

/-- New arguments for the third child. -/
def retryAdjustments : List Adjustment :=
  [⟨"n-ead8aa01e2afba5c", .args (.obj [("text", .str "$prev")])⟩]

/-- The plan is executed, its third child adjusted, the plan executed, its second child
replaced, and the plan executed. -/
theorem incremental_retry_echo :
    ∃ (p q r : Plan) (l : Ledger),
      (echoDispatch.registry.Computes echo ∧ echoDispatch.permits ≠ some 0 ∧
        Attempts echoDispatch [r, q, p] l ∧ ∀ s ∈ [r, q, p], s.CollisionFree) ∧
      ∀ sh : Shared Unit, sh.cancelledAt = none → sh.ledger.Agrees (.start r.count) →
        ∀ t, Turns echoDispatch (.start r sh) t → t.isOver = true →
          ∀ id, l.status id = t.shared.ledger.status id ∧
            field? id l.fragments = field? id t.shared.ledger.fragments := by
  have hcheck : (Plan.ofJson retryJson).toOption.any (fun p =>
      (Adjusting.proceed (retryAdjustments.map Adjustment.nodeId) p [] retryAdjustments).plan?.any
        fun q =>
          (q.find? "n-46c6b100527e3a28").isSome && (q.dependents? "n-46c6b100527e3a28").isSome &&
            ((Edit.replan "n-46c6b100527e3a28" (Plan.callJson "echo" "say" [])).run? q).any fun r =>
              decide (∀ s ∈ [r, q, p], s.CollisionFree)) = true := by decide +kernel
  obtain ⟨p, hp, hcheck⟩ := (Option.any_eq_true _ _).mp hcheck
  obtain ⟨q, hq, hcheck⟩ := (Option.any_eq_true _ _).mp hcheck
  rw [Bool.and_eq_true, Bool.and_eq_true, Option.any_eq_true] at hcheck
  obtain ⟨⟨hfound, hlocated⟩, r, hreplan, hcheck⟩ := hcheck
  obtain ⟨old, hfind⟩ := Option.isSome_iff_exists.mp hfound
  obtain ⟨dropped, hdependents⟩ := Option.isSome_iff_exists.mp hlocated
  have hplan : Plan.ofJson retryJson = .ok p := by
    cases hbuild : Plan.ofJson retryJson with
    | error fault =>
      rw [hbuild] at hp
      exact absurd hp (by simp [Except.toOption])
    | ok built =>
      rw [hbuild] at hp
      rw [Option.some.inj hp]
  have hfree := of_decide_eq_true hcheck
  have hpermits : echoDispatch.permits ≠ some 0 := by decide
  -- one execution, and one after each of the two changes
  obtain ⟨l₀, h₀⟩ := exists_first hpermits () hplan
  obtain ⟨resets, hsettles⟩ := AdjustStep.settles_of_plan? hq
  obtain ⟨l₁, h₁⟩ := h₀.exists_again hpermits () (.adjust hsettles)
  obtain ⟨l₂, h₂⟩ := h₁.exists_again hpermits ()
    (.replan (replan_eq_again_iff.mpr ⟨old, dropped, hfind, hreplan, hdependents, rfl⟩))
  refine ⟨p, q, r, l₂, ⟨echoDispatch_computes, hpermits, h₂, hfree⟩, fun sh hcancel hfresh => ?_⟩
  exact ((incremental_retry echoDispatch_computes hpermits h₂ hfree).1 sh hcancel hfresh).2

end Attempts

end PlanRunner
