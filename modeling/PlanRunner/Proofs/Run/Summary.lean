import PlanRunner.Proofs.Plan.Frontier
import PlanRunner.Proofs.Run.Operations
import PlanRunner.Run.Summary

/-!
# PlanRunner — the result as one list of texts

The result is put together from below: every node joins its own text with those of its children and
leaves out what is empty, and its parent does the same with what comes of that. Seen from above
there is one list, of the nodes that have completed below completed nodes only, and one join.

A node that has completed has its output unless an outcome that belongs to no node took its place.
If that is a failure, the node is completed without output: it says nothing, and the walk from
below does not look for what its children have to say.

* `joinFilled_nested` — parts that are joined beforehand may as well be joined with the others;
* `Ledger.Clears` — a node has completed and stands below completed nodes only;
* `Ledger.Unspoiled` — no such node has a failure for its outcome;
* `Ledger.unspoiled_after` — no failure was recorded under the id of a completed node;
* `Plan.resultText_flat` — the result is the join of the texts of these nodes.
-/

namespace PlanRunner

-- ---------------------------------------------------------------------------
-- Joins of joins
-- ---------------------------------------------------------------------------

/-- Two runs of lines are joined like two lines. -/
theorem joinLines_append {xs ys : List String} (hx : xs ≠ []) (hy : ys ≠ []) :
    Text.joinLines (xs ++ ys) = Text.joinLines xs ++ "\n" ++ Text.joinLines ys :=
  String.intercalate_append_of_ne_nil hx hy

/-- Lines that are joined beforehand are joined with the lines around them. -/
theorem joinLines_nested (xs : List String) {ys : List String} (zs : List String) (hy : ys ≠ []) :
    Text.joinLines (xs ++ Text.joinLines ys :: zs) = Text.joinLines (xs ++ (ys ++ zs)) := by
  have hlast : Text.joinLines (Text.joinLines ys :: zs) = Text.joinLines (ys ++ zs) := by
    cases zs with
    | nil => simp [Text.joinLines]
    | cons z zs =>
      rw [joinLines_append hy (List.cons_ne_nil z zs)]
      exact String.intercalate_cons_cons
  cases xs with
  | nil => exact hlast
  | cons x xs =>
    rw [joinLines_append (List.cons_ne_nil x xs) (List.cons_ne_nil _ zs), hlast,
      ← joinLines_append (List.cons_ne_nil x xs) (by simp [hy])]

/-- Joined lines that are not empty are not empty. -/
theorem joinLines_ne_empty {xs : List String} (hne : xs ≠ []) (hx : ∀ x ∈ xs, x ≠ "") :
    Text.joinLines xs ≠ "" := by
  obtain ⟨x, rest, rfl⟩ := List.exists_cons_of_ne_nil hne
  have hfirst : x ≠ "" := hx x List.mem_cons_self
  cases rest with
  | nil => simpa [Text.joinLines] using hfirst
  | cons y rest =>
    intro hempty
    have happend : x ++ "\n" ++ Text.joinLines (y :: rest) = "" :=
      String.intercalate_cons_cons.symm.trans hempty
    rw [String.append_eq_empty_iff, String.append_eq_empty_iff] at happend
    exact hfirst happend.1.1

/-- Parts that are joined beforehand may as well be joined with the parts around them. -/
theorem joinFilled_nested (xs ys zs : List String) :
    joinFilled (xs ++ joinFilled ys :: zs) = joinFilled (xs ++ (ys ++ zs)) := by
  unfold joinFilled
  by_cases hy : (ys.filter fun y => !y.isEmpty) = []
  · -- of the inner parts nothing is left, which the outer join leaves out
    rw [hy, List.filter_append, List.filter_append, List.filter_append, hy]
    rfl
  · have hfilled : (Text.joinLines (ys.filter fun y => !y.isEmpty)).isEmpty = false := by
      rw [Bool.eq_false_iff, Ne, String.isEmpty_iff]
      exact joinLines_ne_empty hy (by simp)
    rw [List.filter_append, List.filter_cons_of_pos (by rw [hfilled]; rfl), joinLines_nested _ _ hy,
      List.filter_append, List.filter_append]

/-- Of the last parts only their join matters. -/
theorem joinFilled_append_congr (xs : List String) {ys zs : List String}
    (h : joinFilled ys = joinFilled zs) : joinFilled (xs ++ ys) = joinFilled (xs ++ zs) := by
  have hlast := fun ys => joinFilled_nested xs ys []
  simp only [List.append_nil] at hlast
  rw [← hlast ys, h, hlast zs]

-- ---------------------------------------------------------------------------
-- Outputs from above
-- ---------------------------------------------------------------------------

/-- Among the nodes at some sites, the one with this id has completed and so have all above it: all
nodes in whose subtrees the id is. -/
def Ledger.Clears (l : Ledger) (sites : List Site) (id : String) : Prop :=
  ∀ s ∈ sites, id ∈ s.node.ids → l.status s.node.id = .completed

instance (l : Ledger) (sites : List Site) : DecidablePred (l.Clears sites) := fun id =>
  inferInstanceAs (Decidable (∀ s ∈ sites, id ∈ s.node.ids → l.status s.node.id = .completed))

theorem Ledger.clears_cons {l : Ledger} {s : Site} {sites : List Site} {id : String} :
    l.Clears (s :: sites) id ↔
      (id ∈ s.node.ids → l.status s.node.id = .completed) ∧ l.Clears sites id :=
  List.forall_mem_cons

theorem Ledger.clears_append {l : Ledger} {xs ys : List Site} {id : String} :
    l.Clears (xs ++ ys) id ↔ l.Clears xs id ∧ l.Clears ys id :=
  List.forall_mem_append

namespace Node

variable (l : Ledger)

mutual

/-- The outputs of a subtree, a node before its children. Below a node without output none is
looked for. -/
def outputs : Node → List Value
  | ⟨id, _, _, _, _, children⟩ =>
    match l.value? id with
    | some value => value :: outputsAll children
    | none => []

def outputsAll : List Node → List Value
  | [] => []
  | n :: ns => n.outputs ++ outputsAll ns

end

variable {l : Ledger}

/-- The outputs of a node with a value are this value and what comes below. -/
theorem outputs_of_value? {n : Node} {value : Value} (h : l.value? n.id = some value) :
    n.outputs l = value :: outputsAll l n.children := by
  cases n
  simp only [outputs, h]

/-- A node without a value hides all that is below it. -/
theorem outputs_of_none {n : Node} (h : l.value? n.id = none) : n.outputs l = [] := by
  cases n
  simp only [outputs, h]

mutual

/-- A node joins its own text with what comes of its children. -/
theorem resultText?_eq : ∀ n : Node,
    n.resultText? l = (l.value? n.id).map fun _ => joinFilled ((n.outputs l).map Value.text)
  | ⟨id, layer, function, args, parallel, children⟩ => by
    rw [resultText?, outputs]
    cases l.value? id with
    | none => rfl
    | some value =>
      exact congrArg some (joinFilled_append_congr [value.text] (joinFilled_resultTexts children))

/-- The texts of some nodes are the outputs of their trees, one a line. -/
theorem joinFilled_resultTexts : ∀ ns : List Node,
    joinFilled (resultTexts l ns) = joinFilled ((outputsAll l ns).map Value.text)
  | [] => rfl
  | n :: ns => by
    rw [resultTexts, resultText?_eq n, outputsAll, List.map_append]
    cases hvalue : l.value? n.id with
    | none =>
      rw [outputs_of_none hvalue]
      exact joinFilled_resultTexts ns
    | some value =>
      have hjoin := joinFilled_append_congr ((n.outputs l).map Value.text) (joinFilled_resultTexts ns)
      exact (joinFilled_nested [] _ _).trans hjoin

end

-- ---------------------------------------------------------------------------
-- Completed nodes below completed nodes
-- ---------------------------------------------------------------------------

/-- Nodes that are elsewhere do not stand in the way. -/
theorem clears_of_notMem {parent : Option Node} {above : List Nat} {index : Nat} {ns : List Node}
    {id : String} (h : id ∉ idsAll ns) : l.Clears (sitesAll parent above index ns) id :=
  fun _ hs hid => absurd (ids_subset_of_mem_sitesAll hs hid) h

/-- A node is above all of its subtree. -/
theorem clears_sites {parent : Option Node} {above : List Nat} {index : Nat} {n : Node} {id : String}
    (h : id ∈ n.ids) : l.Clears (n.sites parent above index) id ↔
      l.status n.id = .completed ∧ l.Clears (sitesAll (some n) (index :: above) 0 n.children) id := by
  rw [sites_eq, Ledger.clears_cons]
  exact and_congr_left fun _ => imp_iff_right h

mutual

/-- The outputs of a subtree are those of its nodes, in order, that are completed and below
completed nodes, if each of these has one. -/
theorem map_value?_outputs : ∀ (parent : Option Node) (above : List Nat) (index : Nat) {n : Node},
    n.ids.Nodup → (∀ id ∈ n.ids, l.Clears (n.sites parent above index) id →
      (l.value? id).isSome = true) →
      (n.ids.filter fun id => l.Clears (n.sites parent above index) id).map l.value? =
        (n.outputs l).map some
  | parent, above, index, ⟨id, layer, function, args, parallel, children⟩, hd, hl => by
    by_cases hstatus : l.status id = .completed
    · -- the node is above all others, so they clear here if they clear among its children
      have hclears : ∀ x ∈ ids ⟨id, layer, function, args, parallel, children⟩,
          l.Clears (sites parent above index ⟨id, layer, function, args, parallel, children⟩) x ↔
            l.Clears (sitesAll (some ⟨id, layer, function, args, parallel, children⟩)
              (index :: above) 0 children) x :=
        fun x hx => (clears_sites hx).trans (and_iff_right hstatus)
      obtain ⟨hself, hbelow⟩ := List.nodup_cons.mp hd
      obtain ⟨hvalue, hvalues⟩ := List.forall_mem_cons.mp hl
      obtain ⟨value, hvalue⟩ := Option.isSome_iff_exists.mp
        (hvalue ((hclears id List.mem_cons_self).mpr (clears_of_notMem hself)))
      rw [List.filter_congr fun x hx => decide_eq_decide.mpr (hclears x hx), ids, List.filter_cons,
        if_pos (decide_eq_true (clears_of_notMem hself)), List.map_cons,
        map_value?_outputsAll _ _ _ hbelow fun x hx hclear =>
          hvalues x hx ((hclears x (List.mem_cons_of_mem _ hx)).mpr hclear),
        outputs_of_value? hvalue, hvalue, List.map_cons]
    · -- no node of the subtree clears, and the walk stops here too
      have hnone : l.value? id = none := if_neg (mt Ledger.status_eq_completed_iff.mpr hstatus)
      have hfilter : (ids ⟨id, layer, function, args, parallel, children⟩).filter (fun x => l.Clears
          (sites parent above index ⟨id, layer, function, args, parallel, children⟩) x) = [] :=
        List.filter_eq_nil_iff.mpr fun x hx hclears =>
          hstatus ((clears_sites hx).mp (of_decide_eq_true hclears)).1
      rw [hfilter, outputs_of_none hnone, List.map_nil, List.map_nil]

theorem map_value?_outputsAll : ∀ (parent : Option Node) (above : List Nat) (index : Nat)
    {ns : List Node}, (idsAll ns).Nodup →
      (∀ id ∈ idsAll ns, l.Clears (sitesAll parent above index ns) id →
        (l.value? id).isSome = true) →
      ((idsAll ns).filter fun id => l.Clears (sitesAll parent above index ns) id).map l.value? =
        (outputsAll l ns).map some
  | _, _, _, [], _, _ => rfl
  | parent, above, index, n :: ns, hd, hl => by
    rw [idsAll, List.nodup_append] at hd
    rw [idsAll, List.forall_mem_append] at hl
    obtain ⟨hfirst, hrest, hapart⟩ := hd
    -- an id belongs to one of the two parts, and the nodes of the other part do not matter to it
    have hleft : ∀ id ∈ n.ids, l.Clears (sitesAll parent above index (n :: ns)) id ↔
        l.Clears (n.sites parent above index) id := fun id hid => by
      rw [sitesAll, Ledger.clears_append]
      exact and_iff_left (clears_of_notMem fun hmem => hapart id hid id hmem rfl)
    have hright : ∀ id ∈ idsAll ns, l.Clears (sitesAll parent above index (n :: ns)) id ↔
        l.Clears (sitesAll parent above (index + 1) ns) id := fun id hid => by
      rw [sitesAll, Ledger.clears_append]
      refine and_iff_right fun s hs hmem => ?_
      exact absurd rfl (hapart id (ids_subset_of_mem_sites hs hmem) id hid)
    have hn := map_value?_outputs parent above index hfirst fun id hid hclear =>
      hl.1 id hid ((hleft id hid).mpr hclear)
    have hns := map_value?_outputsAll parent above (index + 1) hrest fun id hid hclear =>
      hl.2 id hid ((hright id hid).mpr hclear)
    rw [idsAll, List.filter_append, List.map_append, outputsAll, List.map_append, ← hn, ← hns,
      List.filter_congr fun id hid => decide_eq_decide.mpr (hleft id hid),
      List.filter_congr fun id hid => decide_eq_decide.mpr (hright id hid)]

end

end Node

-- ---------------------------------------------------------------------------
-- Completed nodes and their outputs
-- ---------------------------------------------------------------------------

namespace Ledger

/-- No node that has completed below completed nodes has a failure for its outcome. -/
def Unspoiled (p : Plan) (l : Ledger) : Prop :=
  ∀ outcome ∈ l.fragments, outcome.1 ∈ p.ids → l.Clears p.sites outcome.1 →
    outcome.2.status = .completed

instance (p : Plan) (l : Ledger) : Decidable (l.Unspoiled p) :=
  inferInstanceAs (Decidable (∀ outcome ∈ l.fragments, _))

variable {p : Plan} {total : Nat} {ops : List Op}

/-- A node clears only if it has completed itself. -/
theorem completed_of_clears {l : Ledger} {id : String} (hid : id ∈ p.ids)
    (h : l.Clears p.sites id) : id ∈ l.completed := by
  obtain ⟨s, hs, rfl⟩ := Plan.mem_ids_iff.mp hid
  exact status_eq_completed_iff.mp (h s hs s.node.mem_ids_self)

/-- Only a failure that is recorded for no node, but under the id of a completed one, can spoil a
ledger. -/
theorem unspoiled_after (hops : ∀ before key f rest, ops = before ++ .recordFragment key f :: rest →
    key ∈ p.ids → key ∈ (after total before).completed → f.status = .completed) :
    (after total ops).Unspoiled p := by
  have hbacked : (after total ops).Backed .completed fun id f => id ∈ p.ids → f.status = .completed := by
    refine backed_after ?_ total ?_
    · exact fun id f hstatus _ => hstatus
    · exact fun before key f rest heq hended hid => hops before key f rest heq hid hended
  rintro ⟨id, f⟩ hf hid hclears
  obtain ⟨g, hg, hcompleted⟩ := hbacked.outcome id (completed_of_clears hid hclears)
  obtain rfl := hbacked.sorted.eq_of_mem hg hf
  exact hcompleted hid

/-- In an unspoiled ledger every node that has completed below completed nodes has its output. -/
theorem Unspoiled.isSome_value? (h : (after total ops).Unspoiled p) {id : String} (hid : id ∈ p.ids)
    (hclears : (after total ops).Clears p.sites id) : ((after total ops).value? id).isSome = true := by
  -- every completed node has an outcome, of whatever kind, under whatever keys others are recorded
  have hbacked : (after total ops).Backed .completed fun _ _ => True :=
    backed_after (fun _ _ _ => trivial) total fun _ _ _ _ _ _ => trivial
  have hcompleted := completed_of_clears hid hclears
  obtain ⟨f, hf, -⟩ := hbacked.outcome id hcompleted
  cases f with
  | completed value =>
    rw [value?, if_pos hcompleted, (field?_eq_some_iff hbacked.sorted).mpr hf]
    rfl
  | failed error => exact Status.noConfusion (h _ hf hid hclears)

end Ledger

namespace Plan

/-- **The result is one join.** In a plan of distinct ids, after any operations on a ledger: if no
node that has completed below completed nodes has a failure for its outcome, all these nodes have
outputs, and the result is the texts of these, in the order of the plan, without the empty ones and
each from a new line. -/
theorem resultText_flat {p : Plan} {total : Nat} {ops : List Ledger.Op} {l : Ledger}
    (hd : p.ids.Nodup) (hl : Ledger.after total ops = l) (hunspoiled : l.Unspoiled p) :
    ∃ values : List Value, (p.ids.filter fun id => l.Clears p.sites id).map l.value? = values.map some ∧
      p.resultText l = Text.joinLines ((values.map Value.text).filter fun text => !text.isEmpty) := by
  subst hl
  exact ⟨Node.outputsAll _ p.roots,
    Node.map_value?_outputsAll none [] 0 hd fun _ hid hclears =>
      hunspoiled.isSome_value? hid hclears,
    Node.joinFilled_resultTexts p.roots⟩

/-- A root with a child that says nothing but has a child itself, and one that failed above a node
left from before. -/
def gapsPlan : Plan :=
  ⟨[⟨"a", "echo", "say", .empty, true, [
    ⟨"b", "echo", "say", .empty, false, [⟨"c", "echo", "say", .empty, false, []⟩]⟩,
    ⟨"d", "echo", "say", .empty, false, [⟨"e", "echo", "say", .empty, false, []⟩]⟩]⟩]⟩

/-- The answer that belongs to no node is a failure, and the outcome of the first child is recorded
once more. -/
def gapsOps : List Ledger.Op :=
  [.markCompleted "e" (.str "old"), .markCompleted "a" (.str "first"), .markCompleted "b" (.str ""),
    .markCompleted "c" (.str "second"), .markFailed "d" "lost",
    .recordFragment "answer" (.failed "none"), .recordFragment "b" (.completed (.str ""))]

theorem resultText_flat_gaps :
    gapsPlan.ids.Nodup ∧ (Ledger.after 5 gapsOps).Unspoiled gapsPlan ∧
      ∃ values : List Value, ["a", "b", "c"].map (Ledger.after 5 gapsOps).value? = values.map some ∧
        gapsPlan.resultText (Ledger.after 5 gapsOps) =
          Text.joinLines ((values.map Value.text).filter fun text => !text.isEmpty) ∧
        gapsPlan.resultText (Ledger.after 5 gapsOps) = "first\nsecond" := by
  have hd : gapsPlan.ids.Nodup := by decide
  have hunspoiled : (Ledger.after 5 gapsOps).Unspoiled gapsPlan :=
    Ledger.unspoiled_after fun before key f rest heq hkey _ => by
      have hmem : Ledger.Op.recordFragment key f ∈ gapsOps := by
        rw [heq]
        exact List.mem_append_right _ List.mem_cons_self
      simp only [gapsOps, List.mem_cons, List.not_mem_nil, reduceCtorEq, Ledger.Op.recordFragment.injEq,
        or_false, false_or] at hmem
      obtain ⟨rfl, rfl⟩ | ⟨rfl, rfl⟩ := hmem
      · exact absurd hkey (by decide)
      · rfl
  obtain ⟨values, hvalues, htext⟩ := resultText_flat hd rfl hunspoiled
  have hclears : (gapsPlan.ids.filter fun id => (Ledger.after 5 gapsOps).Clears gapsPlan.sites id) =
      ["a", "b", "c"] := by
    decide
  rw [hclears] at hvalues
  exact ⟨hd, hunspoiled, values, hvalues, htext, rfl⟩

/-- A node above one other. -/
def stackedPlan : Plan :=
  ⟨[⟨"a", "echo", "say", .empty, false, [⟨"b", "echo", "say", .empty, false, []⟩]⟩]⟩

/-- Both nodes complete, and then a failure is recorded under the id of the upper one. -/
def spoilingOps : List Ledger.Op :=
  [.markCompleted "a" (.str "first"), .markCompleted "b" (.str "second"),
    .recordFragment "a" (.failed "lost")]

/-- A failure recorded under the id of a completed node takes the output of that node away, and the
result leaves out the node below it as well, which has completed and has its output. -/
theorem resultText_not_flat :
    (∀ id ∈ stackedPlan.ids, (Ledger.after 2 spoilingOps).Clears stackedPlan.sites id) ∧
    (Ledger.after 2 spoilingOps).value? "a" = none ∧
    (Ledger.after 2 spoilingOps).value? "b" = some (.str "second") ∧
    stackedPlan.resultText (Ledger.after 2 spoilingOps) = "" ∧
    ¬ ∀ (p : Plan) (total : Nat) (ops : List Ledger.Op), p.ids.Nodup → ∀ l, Ledger.after total ops = l →
      p.resultText l = Text.joinLines
        ((((p.ids.filter fun id => l.Clears p.sites id).filterMap l.value?).map Value.text).filter
          fun text => !text.isEmpty) := by
  refine ⟨by decide, rfl, rfl, rfl, fun h => ?_⟩
  exact absurd (h stackedPlan 2 spoilingOps (by decide) _ rfl) (by decide +kernel)

end Plan

end PlanRunner
