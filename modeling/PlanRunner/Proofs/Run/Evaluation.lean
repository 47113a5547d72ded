import PlanRunner.Layer.Basic
import PlanRunner.Proofs.Run.Ledger
import PlanRunner.Run.Summary

/-!
# PlanRunner — a plan evaluated in order

When the outcome of a call depends on nothing but the call, a plan has one meaning:
visit it depth first, one node after the other, and call every node with the outputs
of its parent and of the sibling before it. This module defines that meaning without
walks, tickets or clocks; the walks of `Run/Walk.lean` are measured against it.

* `Node.evaluate` — the outcomes below a node, a node before its children;
* `Plan.evaluated` — the ledger of a plan evaluated in order;
* `Plan.mem_evaluated` — that ledger holds the outcomes of `Plan.evaluate` and no
  others.
-/

namespace PlanRunner

/-- What calls to layers come to when they depend on nothing but the layer, the
function and the arguments. -/
abbrev Semantics : Type := String → String → Value → Except LayerError Value

/-- Every call through the registry comes to what `call` says. How long it takes and
what it does to the world is left open. -/
def Registry.Computes {σ : Type} (r : Registry σ) (call : Semantics) : Prop :=
  ∀ layer function args world, (r.invoke layer function args world).1.outcome = call layer function args

/-- The outcome a ledger keeps of a call. -/
def Fragment.ofOutcome : Except LayerError Value → Fragment
  | .ok value => .completed value
  | .error e => .failed e.message

/-- A completed fragment tells its value. -/
theorem Fragment.ofOutcome_eq_completed {outcome : Except LayerError Value} {value : Value}
    (h : .completed value = ofOutcome outcome) : outcome = .ok value := by
  cases outcome with
  | ok output => rw [Fragment.completed.inj h]
  | error e => exact absurd h (by simp [ofOutcome])

/-- A failed fragment tells that there was an error. -/
theorem Fragment.ofOutcome_eq_failed {outcome : Except LayerError Value} {error : String}
    (h : .failed error = ofOutcome outcome) : ∃ e, outcome = .error e := by
  cases outcome with
  | ok output => exact absurd h (by simp [ofOutcome])
  | error e => exact ⟨e, rfl⟩

namespace Node

variable (call : Semantics)

/-- How the call of a node ends when it sees these outputs. -/
def outcome (parent prev : Option Value) (n : Node) : Except LayerError Value :=
  call n.layer n.function (n.args.resolve parent prev)

mutual

/-- The outcomes below a node. Below a failed node nothing is called. -/
def evaluate (parent prev : Option Value) : Node → List (String × Fragment)
  | ⟨id, layer, function, args, parallel, children⟩ =>
    match call layer function (args.resolve parent prev) with
    | .error e => [(id, .failed e.message)]
    | .ok output =>
      (id, .completed output) ::
        (if parallel then evaluateGroup (some output) children
          else evaluateChain (some output) none children)

/-- The outcomes of nodes that do not see one another. -/
def evaluateGroup (parent : Option Value) : List Node → List (String × Fragment)
  | [] => []
  | n :: ns => n.evaluate parent none ++ evaluateGroup parent ns

/-- The outcomes of nodes of which each sees the output of the one before it. -/
def evaluateChain (parent prev : Option Value) : List Node → List (String × Fragment)
  | [] => []
  | n :: ns =>
    n.evaluate parent prev ++ evaluateChain parent (n.outcome call parent prev).toOption ns

end

/-- The outcomes of the children of a node with an output. -/
def evaluateChildren (output : Value) (n : Node) : List (String × Fragment) :=
  if n.parallel then evaluateGroup call (some output) n.children
  else evaluateChain call (some output) none n.children

/-- The outcomes below a node whose call ended one way or the other. -/
def evaluateAfter (n : Node) (outcome : Except LayerError Value) : List (String × Fragment) :=
  (n.id, .ofOutcome outcome) ::
    match outcome with
    | .ok output => n.evaluateChildren call output
    | .error _ => []

/-- A node is evaluated by its own outcome and what comes after it. -/
theorem evaluate_eq (parent prev : Option Value) (n : Node) :
    n.evaluate call parent prev = n.evaluateAfter call (n.outcome call parent prev) := by
  cases n
  unfold evaluate outcome evaluateAfter evaluateChildren
  simp only
  split
  · rename_i e he
    rw [he]
    rfl
  · rename_i output ho
    rw [ho]
    rfl

theorem idsAll_append (ns ms : List Node) : idsAll (ns ++ ms) = idsAll ns ++ idsAll ms := by
  induction ns with
  | nil => rfl
  | cons n ns ih => simp only [List.cons_append, idsAll, ih, List.append_assoc]

mutual

/-- Every node is called at most once, in the order of the plan. -/
theorem evaluate_ids : ∀ (parent prev : Option Value) (n : Node),
    ((n.evaluate call parent prev).map Prod.fst).Sublist n.ids
  | parent, prev, ⟨id, layer, function, args, parallel, children⟩ => by
    unfold evaluate ids
    split
    · exact (List.nil_sublist _).cons_cons id
    · rename_i output _
      refine List.Sublist.cons_cons id ?_
      split
      · exact evaluateGroup_ids (some output) children
      · exact evaluateChain_ids (some output) none children

/-- The outcomes of a group are of its nodes, each once. -/
theorem evaluateGroup_ids : ∀ (parent : Option Value) (ns : List Node),
    ((evaluateGroup call parent ns).map Prod.fst).Sublist (idsAll ns)
  | _, [] => List.Sublist.refl _
  | parent, n :: ns => by
    rw [evaluateGroup, List.map_append]
    exact (evaluate_ids parent none n).append (evaluateGroup_ids parent ns)

/-- The outcomes of a chain are of its nodes, each once. -/
theorem evaluateChain_ids : ∀ (parent prev : Option Value) (ns : List Node),
    ((evaluateChain call parent prev ns).map Prod.fst).Sublist (idsAll ns)
  | _, _, [] => List.Sublist.refl _
  | parent, prev, n :: ns => by
    rw [evaluateChain, List.map_append]
    exact (evaluate_ids parent prev n).append (evaluateChain_ids parent _ ns)

end

/-- The outcomes below a node are of its children, group or chain. -/
theorem evaluateChildren_ids (output : Value) (n : Node) :
    ((n.evaluateChildren call output).map Prod.fst).Sublist (idsAll n.children) := by
  unfold evaluateChildren
  split
  · exact evaluateGroup_ids call (some output) n.children
  · exact evaluateChain_ids call (some output) none n.children

/-- The outcomes of a node are its own and those of what is below it. -/
theorem evaluateAfter_ids (n : Node) (outcome : Except LayerError Value) :
    ((n.evaluateAfter call outcome).map Prod.fst).Sublist n.ids := by
  unfold evaluateAfter
  rw [ids_eq]
  refine List.Sublist.cons_cons n.id ?_
  cases outcome with
  | ok output => exact evaluateChildren_ids call output n
  | error e => exact List.nil_sublist _

end Node

-- ---------------------------------------------------------------------------
-- The ledger of a plan evaluated in order
-- ---------------------------------------------------------------------------

namespace Node

mutual

/-- The result text is read off the values alone. -/
theorem resultText?_congr {l m : Ledger} (h : l.value? = m.value?) :
    ∀ n : Node, n.resultText? l = n.resultText? m
  | ⟨id, _, _, _, _, children⟩ => by
    unfold resultText?
    rw [h, resultTexts_congr h children]

theorem resultTexts_congr {l m : Ledger} (h : l.value? = m.value?) :
    ∀ ns : List Node, resultTexts l ns = resultTexts m ns
  | [] => rfl
  | n :: ns => by
    unfold resultTexts
    rw [resultText?_congr h n, resultTexts_congr h ns]

end

end Node

/-- The text of a result depends on the outputs only. -/
theorem Ledger.Agrees.resultText {l m : Ledger} (h : l.Agrees m) (p : Plan) :
    p.resultText l = p.resultText m := by
  unfold Plan.resultText
  rw [Node.resultTexts_congr h.value? p.roots]

/-- Records outcomes one after the other. -/
def Ledger.enterAll (l : Ledger) (outcomes : List (String × Fragment)) : Ledger :=
  outcomes.foldl (fun l f => l.enter f.1 f.2) l

namespace Plan

variable (call : Semantics)

/-- The outcomes of a plan, whose roots do not see one another. -/
def evaluate (p : Plan) : List (String × Fragment) :=
  Node.evaluateGroup call none p.roots

/-- The ledger of a plan evaluated in order. -/
def evaluated (p : Plan) : Ledger :=
  (Ledger.start p.count).enterAll (p.evaluate call)

end Plan

namespace Ledger

variable {l : Ledger}

/-- Entering outcomes one after the other keeps the book. -/
theorem Orderly.enterAll (hl : Orderly ∅ l) (outcomes : List (String × Fragment)) :
    Orderly ∅ (l.enterAll outcomes) := by
  induction outcomes generalizing l with
  | nil => exact hl
  | cons f fs ih => exact ih (hl.enter (Set.notMem_empty _) f.2)

@[simp] theorem enterAll_total (outcomes : List (String × Fragment)) :
    (l.enterAll outcomes).total = l.total := by
  induction outcomes generalizing l with
  | nil => rfl
  | cons f fs ih => exact ih.trans (enter_total l f.1 f.2)

theorem enterAll_running (outcomes : List (String × Fragment)) (h : l.running = []) :
    (l.enterAll outcomes).running = [] := by
  induction outcomes generalizing l with
  | nil => exact h
  | cons f fs ih =>
    refine ih ?_
    rw [enter_running, h]
    rfl

/-- When each node has one outcome, all of them are found again, beside what was there of other
nodes. -/
theorem mem_enterAll (hl : Orderly ∅ l) {outcomes : List (String × Fragment)}
    (hd : (outcomes.map Prod.fst).Nodup) {id : String} {f : Fragment} :
    (id, f) ∈ (l.enterAll outcomes).fragments ↔
      (id, f) ∈ outcomes ∨ id ∉ outcomes.map Prod.fst ∧ (id, f) ∈ l.fragments := by
  induction outcomes generalizing l with
  | nil => simp [enterAll]
  | cons g gs ih =>
    obtain ⟨k, v⟩ := g
    obtain ⟨hk, hgs⟩ := List.nodup_cons.mp hd
    have hstep : (l.enterAll ((k, v) :: gs)) = (l.enter k v).enterAll gs := rfl
    rw [hstep, ih (hl.enter (Set.notMem_empty _) v) hgs, enter_fragments,
      mem_insertField hl.fragments_sorted]
    -- the id of the first outcome does not come again
    by_cases hid : id = k
    · subst hid
      have hgs' : (id, f) ∉ gs := fun h => hk (List.mem_map.mpr ⟨_, h, rfl⟩)
      simp [hk, hgs']
    · simp [hid]

end Ledger

namespace Plan

variable (call : Semantics)

/-- In a plan of distinct ids no id has two outcomes. -/
theorem evaluate_nodup {p : Plan} (hp : p.ids.Nodup) : ((p.evaluate call).map Prod.fst).Nodup :=
  hp.sublist (Node.evaluateGroup_ids call none p.roots)

theorem evaluated_orderly (p : Plan) : (p.evaluated call).Orderly ∅ :=
  (Ledger.Orderly.start _).enterAll _

@[simp] theorem evaluated_total (p : Plan) : (p.evaluated call).total = p.count := by
  unfold evaluated
  rw [Ledger.enterAll_total]
  rfl

/-- The evaluation is over, so nothing in it runs. -/
theorem evaluated_running (p : Plan) : (p.evaluated call).running = [] :=
  Ledger.enterAll_running _ rfl

/-- The ledger of a plan evaluated in order holds exactly the outcomes of the plan. -/
theorem mem_evaluated {p : Plan} (hp : p.ids.Nodup) {id : String} {f : Fragment} :
    (id, f) ∈ (p.evaluated call).fragments ↔ (id, f) ∈ p.evaluate call := by
  unfold evaluated
  rw [Ledger.mem_enterAll (Ledger.Orderly.start _) (evaluate_nodup call hp)]
  simp [Ledger.start]

end Plan

end PlanRunner
