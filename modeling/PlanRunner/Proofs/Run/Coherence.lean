import PlanRunner.Proofs.Run.Retry
import PlanRunner.Run.Basic

/-!
# PlanRunner — a ledger and the plan it is about

What a run shows of itself is read off two things that change at different moments: its
plan and its ledger. They go together when the ledger has sets for nodes of the plan only
and counts all of them. Then the numbers that are shown are those of the nodes that are
shown, and no progress goes beyond the whole.

* `Ledger.About` — the ledger goes together with a plan, with one lemma for each change;
* `Ledger.Coherent`, `RunState.Coherent` — what others may rely on;
* `Ledger.About.coherent` — the first gives the second when ids are distinct.
-/

namespace PlanRunner

-- ---------------------------------------------------------------------------
-- What a view shows
-- ---------------------------------------------------------------------------

namespace NodeView

mutual

/-- The statuses shown in a subtree, that of a node before those of its children. -/
def statuses : NodeView → List Status
  | ⟨_, _, _, status, children⟩ => status :: statusesAll children

def statusesAll : List NodeView → List Status
  | [] => []
  | v :: vs => v.statuses ++ statusesAll vs

end

end NodeView

namespace Node

mutual

/-- A view lists the statuses of its nodes in their order. -/
theorem statuses_view (status : String → Status) : ∀ n : Node,
    (n.view status).statuses = n.ids.map status
  | ⟨id, layer, function, args, parallel, children⟩ => by
    rw [view, NodeView.statuses, ids, List.map_cons, statusesAll_viewAll status children]

theorem statusesAll_viewAll (status : String → Status) : ∀ ns : List Node,
    NodeView.statusesAll (viewAll status ns) = (idsAll ns).map status
  | [] => rfl
  | n :: ns => by
    rw [viewAll, NodeView.statusesAll, idsAll, List.map_append, statuses_view status n,
      statusesAll_viewAll status ns]

end

end Node

theorem Plan.statusesAll_view (p : Plan) (status : String → Status) :
    NodeView.statusesAll (p.view status) = p.ids.map status :=
  Node.statusesAll_viewAll status p.roots

/-- Among distinct ids a status is shown as often as there are ids in the set that stands
for it. -/
theorem count_map_eq_length {ids : List String} {s : IdSet} {status : String → Status} {x : Status}
    (hd : ids.Nodup) (hs : s.Nodup) (h : ∀ id, id ∈ s ↔ id ∈ ids ∧ status id = x) :
    (ids.map status).count x = s.length := by
  rw [List.count_eq_countP, List.countP_map, List.countP_eq_length_filter]
  refine List.Perm.length_eq ((List.perm_ext_iff_of_nodup (hd.filter _) hs).mpr ?_)
  intro id
  rw [h id, List.mem_filter]
  simp

-- ---------------------------------------------------------------------------
-- Coherence
-- ---------------------------------------------------------------------------

/-- The sets of a ledger tell different nodes of a plan apart, and its numbers are those
that the plan shows. Before there is a plan there are no nodes. -/
structure Ledger.Coherent (plan : Option Plan) (l : Ledger) : Prop where
  completed_failed : List.Disjoint l.completed l.failed
  completed_running : List.Disjoint l.completed l.running
  failed_running : List.Disjoint l.failed l.running
  within : ∀ {id}, id ∈ l.completed ∨ id ∈ l.failed ∨ id ∈ l.running →
    ∃ p, plan = some p ∧ id ∈ p.ids
  bounded : l.completed.length + l.failed.length + l.running.length ≤ l.total
  shown : ∀ {p}, plan = some p →
    l.total = p.count ∧
      (NodeView.statusesAll (p.view l.status)).length = l.total ∧
      (NodeView.statusesAll (p.view l.status)).count .completed = l.completed.length ∧
      (NodeView.statusesAll (p.view l.status)).count .failed = l.failed.length ∧
      (NodeView.statusesAll (p.view l.status)).count .running = l.running.length

/-- A state shows a plan and a ledger. -/
structure RunState.Shows (x : RunState) (plan : Option Plan) (l : Ledger) : Prop where
  total : x.total = l.total
  completed : x.completed = l.completed.length
  failed : x.failed = l.failed.length
  running : x.running = l.running.length
  logs : x.logs = l.logs
  view : x.plan = plan.map fun p => p.view l.status

/-- A state that others may rely on: it shows a coherent ledger, its progress does not go
beyond the whole, and its numbers are those of the nodes it shows. -/
structure RunState.Coherent (x : RunState) : Prop where
  sets : ∃ plan l, x.Shows plan l ∧ l.Coherent plan
  bounded : x.completed + x.failed + x.running ≤ x.total
  shown : ∀ {views}, x.plan = some views →
    (NodeView.statusesAll views).length = x.total ∧
      (NodeView.statusesAll views).count .completed = x.completed ∧
      (NodeView.statusesAll views).count .failed = x.failed ∧
      (NodeView.statusesAll views).count .running = x.running

/-- The state of a finished run that others may rely on. -/
def HistoryEntry.Coherent (entry : HistoryEntry) : Prop :=
  entry.result.ledger.Coherent entry.result.plan

/-- What shows a coherent ledger is coherent. -/
theorem RunState.Shows.coherent {x : RunState} {plan : Option Plan} {l : Ledger}
    (hx : x.Shows plan l) (hl : l.Coherent plan) : x.Coherent where
  sets := ⟨plan, l, hx, hl⟩
  bounded := by
    rw [hx.completed, hx.failed, hx.running, hx.total]
    exact hl.bounded
  shown := by
    intro views hviews
    rw [hx.view, Option.map_eq_some_iff] at hviews
    obtain ⟨p, hp, rfl⟩ := hviews
    rw [hx.total, hx.completed, hx.failed, hx.running]
    exact (hl.shown hp).2

/-- What is published about a run shows its plan and its ledger. -/
theorem Run.state_shows (r : Run) (status : RunStatus) (result error : Option String) :
    (r.state status result error).Shows r.plan r.ledger :=
  ⟨rfl, rfl, rfl, rfl, rfl, rfl⟩

-- ---------------------------------------------------------------------------
-- A ledger about a plan
-- ---------------------------------------------------------------------------

namespace Ledger

/-- An orderly ledger of a plan: it counts the nodes of the plan, and its sets have no
other ids. -/
structure About (aside : Set String) (p : Plan) (l : Ledger) : Prop where
  orderly : l.Orderly aside
  total : l.total = p.count
  within : ∀ {id}, id ∈ l.completed ∨ id ∈ l.failed ∨ id ∈ l.running → id ∈ p.ids

namespace About

variable {aside : Set String} {p : Plan} {l m : Ledger}

/-- Two statuses do not overlap, so the sets together are at most the ids of the plan. -/
theorem length_le (h : l.About aside p) :
    l.completed.length + l.failed.length + l.running.length ≤ l.total := by
  have hd : (l.completed ++ l.failed ++ l.running).Nodup := by
    rw [List.nodup_append', List.nodup_append']
    refine ⟨⟨h.orderly.completed_sorted.nodup, h.orderly.failed_sorted.nodup, ?_⟩,
      h.orderly.running_sorted.nodup, ?_⟩
    · intro id hc hf
      exact h.orderly.not_mem_failed hc hf
    · intro id hid hr
      rcases List.mem_append.mp hid with hc | hf
      · exact h.orderly.not_mem_running_of_completed hc hr
      · exact h.orderly.not_mem_running_of_failed hf hr
  -- the three sets have no id in common and none that is not of the plan, so together they are no
  -- larger than it
  have hsubset : l.completed ++ l.failed ++ l.running ⊆ p.ids := by
    intro id hid
    rw [List.mem_append, List.mem_append, or_assoc] at hid
    exact h.within hid
  have hle := (List.subperm_of_subset hd hsubset).length_le
  rw [List.length_append, List.length_append] at hle
  rw [h.total, Plan.count_eq_length_ids]
  exact hle

/-- The nodes of a set are those that the plan shows with its status. -/
theorem mem_completed_iff (h : l.About aside p) {id : String} :
    id ∈ l.completed ↔ id ∈ p.ids ∧ l.status id = .completed := by
  rw [status_eq_completed_iff]
  exact ⟨fun hid => ⟨h.within (.inl hid), hid⟩, fun hid => hid.2⟩

/-- The failed set is that of the failed nodes of the plan. -/
theorem mem_failed_iff (h : l.About aside p) {id : String} :
    id ∈ l.failed ↔ id ∈ p.ids ∧ l.status id = .failed := by
  rw [status_eq_failed_iff]
  constructor
  · intro hid
    have hc : id ∉ l.completed := fun hc => h.orderly.not_mem_failed hc hid
    exact ⟨h.within (.inr (.inl hid)), hc, hid⟩
  · intro hid
    exact hid.2.2

/-- The running set is that of its running nodes. -/
theorem mem_running_iff (h : l.About aside p) {id : String} :
    id ∈ l.running ↔ id ∈ p.ids ∧ l.status id = .running := by
  rw [status_eq_running_iff]
  constructor
  · intro hid
    have hc : id ∉ l.completed := fun hc => h.orderly.not_mem_running_of_completed hc hid
    have hf : id ∉ l.failed := fun hf => h.orderly.not_mem_running_of_failed hf hid
    exact ⟨h.within (.inr (.inr hid)), hc, hf, hid⟩
  · intro hid
    exact hid.2.2.2

/-- A ledger of a plan of distinct ids is coherent. -/
theorem coherent {plan : Option Plan} (hd : (plan.getD .empty).ids.Nodup)
    (h : l.About aside (plan.getD .empty)) : l.Coherent plan where
  completed_failed := fun _ hc hf => h.orderly.not_mem_failed hc hf
  completed_running := fun _ hc hr => h.orderly.not_mem_running_of_completed hc hr
  failed_running := fun _ hf hr => h.orderly.not_mem_running_of_failed hf hr
  within := by
    intro id hid
    have hmem := h.within hid
    cases plan with
    | none => exact absurd hmem List.not_mem_nil
    -- a node in a set is a node of the plan, which has to exist then
    | some p => exact ⟨p, rfl, hmem⟩
  bounded := h.length_le
  shown := by
    rintro p rfl
    rw [Option.getD_some] at hd h
    rw [Plan.statusesAll_view, List.length_map]
    refine ⟨h.total, ?_, ?_, ?_, ?_⟩
    · rw [h.total, Plan.count_eq_length_ids]
    · exact count_map_eq_length hd h.orderly.completed_sorted.nodup fun _ => h.mem_completed_iff
    · exact count_map_eq_length hd h.orderly.failed_sorted.nodup fun _ => h.mem_failed_iff
    · exact count_map_eq_length hd h.orderly.running_sorted.nodup fun _ => h.mem_running_iff

-- ---------------------------------------------------------------------------
-- What each change of a ledger keeps
-- ---------------------------------------------------------------------------

/-- The empty ledger is about the empty plan. -/
theorem start : (Ledger.start 0).About aside Plan.empty where
  orderly := .start 0
  total := rfl
  within := by simp [Ledger.start]

/-- What a ledger is about does not depend on its log. -/
theorem of_agrees (h : l.Agrees m) (hm : m.About aside p) : l.About aside p where
  orderly := h.orderly hm.orderly
  total := h.total.trans hm.total
  within := by
    rw [h.completed, h.failed, h.running]
    exact hm.within

/-- A line more in the log is about no node. -/
theorem log (h : l.About aside p) (line : String) : (l.log line).About aside p := by
  have hagrees : (l.log line).Agrees l := ⟨rfl, rfl, rfl, rfl, rfl⟩
  exact of_agrees hagrees h

/-- A fragment under a key of its own is about no node. -/
theorem recordFragment (h : l.About aside p) {key : String} (ha : key ∈ aside) (f : Fragment) :
    (l.recordFragment key f).About aside p where
  orderly := h.orderly.recordFragment ha f
  total := h.total
  within := h.within

/-- A node of the plan that starts keeps the ledger about the plan. -/
theorem markRunning (h : l.About aside p) {id : String} (ha : id ∉ aside) (hid : id ∈ p.ids)
    (hm : l.markRunning id = some m) : m.About aside p := by
  refine ⟨h.orderly.markRunning ha hm, ?_, ?_⟩
  · obtain ⟨-, -, -, rfl⟩ := markRunning_eq_some_iff.mp hm
    exact h.total
  · obtain ⟨-, -, -, rfl⟩ := markRunning_eq_some_iff.mp hm
    rintro other (hc | hf | hr)
    · exact h.within (.inl hc)
    · exact h.within (.inr (.inl hf))
    · rcases IdSet.mem_insert.mp hr with rfl | hr
      · exact hid
      · exact h.within (.inr (.inr hr))

/-- A node of the plan that ends keeps the ledger about the plan. -/
theorem enter (h : l.About aside p) {id : String} (ha : id ∉ aside) (hid : id ∈ p.ids)
    (f : Fragment) : (l.enter id f).About aside p := by
  refine ⟨h.orderly.enter ha f, (enter_total l id f).trans h.total, ?_⟩
  rw [enter_running]
  rintro other (hc | hf | hr)
  · rcases mem_enter_completed.mp hc with ⟨-, rfl⟩ | ⟨-, hc⟩
    · exact hid
    · exact h.within (.inl hc)
  · rcases mem_enter_failed.mp hf with ⟨-, rfl⟩ | ⟨-, hf⟩
    · exact hid
    · exact h.within (.inr (.inl hf))
  · exact h.within (.inr (.inr (IdSet.mem_erase.mp hr).1))

/-- A node that starts or ends is a node of the plan, so the ledger stays about it. -/
theorem record (h : l.About aside p) {node : Node} (ha : node.id ∉ aside) (hid : node.id ∈ p.ids)
    (outcome : Except LayerError Value) : (Walk.record l node outcome).About aside p := by
  have hlogged := h.log (Walk.logLine node outcome)
  cases outcome with
  | ok value => exact hlogged.enter ha hid (.completed value)
  | error e => exact hlogged.enter ha hid (.failed e.message)

/-- Resetting only takes ids away. -/
theorem reset (h : l.About aside p) (ids : List String) : (l.reset ids).About aside p where
  orderly := h.orderly.reset ids
  total := h.total
  within := by
    rintro id (hc | hf | hr)
    · exact h.within (.inl (List.mem_filter.mp hc).1)
    · exact h.within (.inr (.inl (List.mem_filter.mp hf).1))
    · exact h.within (.inr (.inr (List.mem_filter.mp hr).1))

/-- What is carried over to another plan has to be there. -/
theorem carryOver (hl : l.Orderly aside) {keep : List String} (hkeep : ∀ id ∈ keep, id ∈ p.ids) :
    (Ledger.carryOver p.count l keep).About aside p := by
  have ho := hl.carryOver p.count keep
  -- whatever is carried over was asked to be kept, so it is of the new plan
  have hkept : ∀ {id : String} {f : Fragment},
      (id, f) ∈ (Ledger.carryOver p.count l keep).fragments → id ∈ p.ids :=
    fun hf => hkeep _ (hl.mem_keptFragments.mp hf).1
  refine ⟨ho, rfl, ?_⟩
  rintro id (hc | hf | hr)
  · obtain ⟨-, value, hmem⟩ := ho.completed_iff.mp hc
    exact hkept hmem
  · obtain ⟨-, error, hmem⟩ := ho.failed_iff.mp hf
    exact hkept hmem
  · exact absurd hr List.not_mem_nil

-- ---------------------------------------------------------------------------
-- What a retry keeps
-- ---------------------------------------------------------------------------

/-- After a replan the ids that are kept do not depend on the replaced node, so they are
still there. -/
theorem replan (hd : p.ids.Nodup) (hempty : "" ∉ p.ids) (h : l.About aside p) {plan : Plan}
    {nodeId : String} {subtree : Json} (hr : PlanRunner.replan p l nodeId subtree = .again plan m) :
    m.About aside plan := by
  obtain ⟨old, dropped, -, hrun, hdropped, rfl⟩ := replan_eq_again_iff.mp hr
  obtain ⟨_, _, replacement, -, -, hreplace⟩ := Edit.run?_replan_eq_some.mp hrun
  have hplan := Plan.replace?_eq_some hreplace
  refine log (carryOver h.orderly ?_) _
  intro id hid
  rw [keptIds, List.mem_filter] at hid
  -- what is kept does not depend on the node that was replaced, so the graft leaves it in the
  -- plan
  have hfar : ¬ p.Depends nodeId id := by
    rw [← Plan.mem_dependents? hd hempty hdropped]
    simpa using hid.2
  rw [hplan]
  exact Plan.mem_ids_edit hfar hid.1

/-- New arguments change no id. -/
theorem adjusted (h : l.About aside p) {plan : Plan} {named resets : List String}
    (ha : Adjusted p named plan resets) : (Adjusting.finish named resets l).About aside plan := by
  have hreset : (l.reset resets).About aside plan := by
    refine ⟨(h.reset resets).orderly, ?_, ?_⟩
    · rw [ha.count]
      exact (h.reset resets).total
    · rw [ha.ids]
      exact (h.reset resets).within
  exact of_agrees (Adjusting.finish_agrees named resets l) hreset

end About

end Ledger

end PlanRunner
