import PlanRunner.Proofs.Plan.Frontier
import PlanRunner.Proofs.Run.Deeds

/-!
# PlanRunner — in which order nodes start

Where a walk stands and what the ledger says about its nodes go together. A node whose
call is in flight is running, and then nothing else of its subtree is. The node of a group
or a chain has completed. What comes before the current child of a chain is finished, what
comes after it has not been looked at. And unless the walk has been cancelled, where it is
done nothing is left to start. Every step keeps this, wherever it is taken; so the way to a
node that starts is open.

* `Walk.Tracks` — where a walk stands agrees with the statuses of the nodes;
* `Walk.Move.tracks`, `Traversal.Steady.turn` — every step keeps it;
* `Traversal.Trace.steady` — it holds after any deeds, cancelled or not;
* `Traversal.Trace.course` — how often a node has been started and ended;
* `Traversal.start_order` — which nodes start, and how often.
-/

namespace PlanRunner

namespace Walk

-- ---------------------------------------------------------------------------
-- Where a walk stands
-- ---------------------------------------------------------------------------

mutual

/-- A walk through the subtree of a node stands where the statuses say. -/
def Tracks (status : String → Status) (cancelled : Bool) : Walk → Node → Prop
  | .fresh m _ _, n => m = n ∧ n.Quiet status
  | .queued m _ _ _, n => m = n ∧ n.Quiet status ∧ status n.id = .pending
  | .calling m _, n => m = n ∧ status n.id = .running ∧ ∀ c ∈ n.children, c.Quiet status
  | .group _ members, n =>
    status n.id = .completed ∧ n.parallel = true ∧ TracksAll status cancelled members n.children
  | .chain _ current later, n =>
    status n.id = .completed ∧ n.parallel = false ∧
      ∃ earlier c, n.children = earlier ++ c :: later ∧ (∀ e ∈ earlier, e.Finished status) ∧
        current.Tracks status cancelled c ∧ ∀ e ∈ later, e.Quiet status
  | .done _, n => n.Quiet status ∧ (cancelled = false → n.Ended status)

def TracksAll (status : String → Status) (cancelled : Bool) : List Walk → List Node → Prop
  | [], [] => True
  | w :: ws, n :: ns => w.Tracks status cancelled n ∧ TracksAll status cancelled ws ns
  | [], _ :: _ => False
  | _ :: _, [] => False

end

section Statuses

variable {status status' : String → Status} {c c' : Bool} {n : Node}

/-- A node that is not running and whose children's subtrees are quiet. -/
theorem quiet_of_children (hid : status n.id ≠ .running) (h : ∀ c ∈ n.children, c.Quiet status) :
    n.Quiet status := by
  intro id hmem
  rw [Node.ids_eq, List.mem_cons] at hmem
  rcases hmem with rfl | hmem
  · exact hid
  · obtain ⟨child, hchild, hid⟩ := Node.mem_idsAll_iff.mp hmem
    exact h child hchild id hid

theorem children_quiet (h : n.Quiet status) : ∀ c ∈ n.children, c.Quiet status :=
  fun _ hc id hid => h id (Node.mem_ids_of_mem_children (Node.ids_subset_of_mem hc hid))

theorem tracksAll_fresh {ns : List Node} (parent : Option Value) (h : ∀ n ∈ ns, n.Quiet status) :
    TracksAll status c (ns.map fun n => .fresh n parent none) ns := by
  induction ns with
  | nil => trivial
  | cons n ns ih =>
    refine ⟨⟨rfl, h n List.mem_cons_self⟩, ih fun m hm => h m (List.mem_cons_of_mem _ hm)⟩

mutual

/-- A walk through a subtree has its nodes there. -/
theorem Tracks.ids_subset : ∀ {w : Walk} {n : Node}, w.Tracks status c n → w.ids ⊆ n.ids
  | .fresh _ _ _, n, h => by
    rw [ids, h.1]
    exact List.Subset.refl _
  | .queued _ _ _ _, n, h => by
    rw [ids, h.1]
    exact List.Subset.refl _
  | .calling _ _, n, h => by
    rw [ids, h.1]
    exact List.Subset.refl _
  | .group _ members, n, h =>
    fun _ hid => Node.mem_ids_of_mem_children (TracksAll.ids_subset h.2.2 hid)
  | .chain _ current later, n, h => by
    obtain ⟨-, -, earlier, child, hchildren, -, hcurrent, -⟩ := h
    intro id hid
    refine Node.mem_ids_of_mem_children ?_
    rw [hchildren, Node.idsAll_append, Node.idsAll]
    rw [ids, List.mem_append] at hid
    refine List.mem_append_right _ (List.mem_append.mpr (hid.imp_left fun hid => ?_))
    exact Tracks.ids_subset hcurrent hid
  | .done _, n, _ => List.nil_subset _

theorem TracksAll.ids_subset : ∀ {ws : List Walk} {ns : List Node}, TracksAll status c ws ns →
    idsAll ws ⊆ Node.idsAll ns
  | [], [], _ => List.Subset.refl _
  | w :: ws, n :: ns, h => by
    intro id hid
    rw [idsAll, List.mem_append] at hid
    rw [Node.idsAll, List.mem_append]
    exact hid.imp (fun hid => Tracks.ids_subset h.1 hid) (fun hid => TracksAll.ids_subset h.2 hid)
  | [], _ :: _, h => h.elim
  | _ :: _, [], h => h.elim

end

mutual

/-- What holds of a walk is about its own nodes, and a cancellation only takes away from it. -/
theorem Tracks.mono (hcancel : c' = false → c = false) : ∀ {w : Walk} {n : Node},
    w.Tracks status c n → (∀ id ∈ n.ids, status' id = status id) → w.Tracks status' c' n
  | .fresh _ _ _, n, h, hsame => ⟨h.1, h.2.congr hsame⟩
  -- every clause reads the statuses of the subtree alone, so it carries over
  | .queued _ _ _ _, n, h, hsame =>
    ⟨h.1, h.2.1.congr hsame, (hsame n.id (Node.mem_ids_self n)).trans h.2.2⟩
  | .calling _ _, n, h, hsame => by
    refine ⟨h.1, (hsame n.id (Node.mem_ids_self n)).trans h.2.1, fun child hchild => ?_⟩
    exact (h.2.2 child hchild).congr fun id hid =>
      hsame id (Node.mem_ids_of_mem_children (Node.ids_subset_of_mem hchild hid))
  | .group _ members, n, h, hsame => by
    refine ⟨(hsame n.id (Node.mem_ids_self n)).trans h.1, h.2.1, ?_⟩
    exact TracksAll.mono hcancel h.2.2 fun id hid => hsame id (Node.mem_ids_of_mem_children hid)
  | .chain _ current later, n, h, hsame => by
    obtain ⟨hstatus, hparallel, earlier, child, hchildren, hearlier, hcurrent, hlater⟩ := h
    have hbelow : ∀ m ∈ n.children, ∀ id ∈ m.ids, status' id = status id := fun m hm id hid =>
      hsame id (Node.mem_ids_of_mem_children (Node.ids_subset_of_mem hm hid))
    simp only [hchildren, List.mem_append, List.mem_cons] at hbelow
    refine ⟨(hsame n.id (Node.mem_ids_self n)).trans hstatus, hparallel, earlier, child, hchildren,
      fun e he => (hearlier e he).congr (hbelow e (.inl he)), ?_,
      fun e he => (hlater e he).congr (hbelow e (.inr (.inr he)))⟩
    exact Tracks.mono hcancel hcurrent (hbelow child (.inr (.inl rfl)))
  | .done _, n, h, hsame => ⟨h.1.congr hsame, fun hc => (h.2 (hcancel hc)).congr hsame⟩

theorem TracksAll.mono (hcancel : c' = false → c = false) : ∀ {ws : List Walk} {ns : List Node},
    TracksAll status c ws ns → (∀ id ∈ Node.idsAll ns, status' id = status id) →
      TracksAll status' c' ws ns
  | [], [], _, _ => trivial
  | w :: ws, n :: ns, h, hsame => by
    simp only [Node.idsAll, List.mem_append] at hsame
    exact ⟨Tracks.mono hcancel h.1 fun id hid => hsame id (.inl hid),
      TracksAll.mono hcancel h.2 fun id hid => hsame id (.inr hid)⟩
  | [], _ :: _, h, _ => h.elim
  | _ :: _, [], h, _ => h.elim

end

/-- Each part of a forest walks through a part of the nodes. -/
theorem tracksAll_append_iff {before after : List Walk} {w : Walk} {ns : List Node} :
    TracksAll status c (before ++ w :: after) ns ↔
      ∃ earlier n later, ns = earlier ++ n :: later ∧ TracksAll status c before earlier ∧
        w.Tracks status c n ∧ TracksAll status c after later := by
  -- the forest and the nodes are of one length, so splitting the one splits the other
  induction before generalizing ns with
  | nil =>
    cases ns with
    | nil =>
      refine ⟨fun h => h.elim, ?_⟩
      rintro ⟨earlier, n, later, hns, -⟩
      exact absurd hns (by simp)
    | cons n ns =>
      refine ⟨fun h => ⟨[], n, ns, rfl, trivial, h.1, h.2⟩, ?_⟩
      rintro ⟨earlier, n', later, hns, hbefore, hw, hafter⟩
      cases earlier with
      | nil =>
        obtain ⟨rfl, rfl⟩ := List.cons.inj hns
        exact ⟨hw, hafter⟩
      | cons e es => exact hbefore.elim
  | cons v before ih =>
    cases ns with
    | nil =>
      refine ⟨fun h => h.elim, ?_⟩
      rintro ⟨earlier, n, later, hns, -⟩
      exact absurd hns (by simp)
    | cons n ns =>
      rw [List.cons_append, TracksAll, ih]
      constructor
      · rintro ⟨hv, earlier, m, later, rfl, hbefore, hw, hafter⟩
        exact ⟨n :: earlier, m, later, rfl, ⟨hv, hbefore⟩, hw, hafter⟩
      · rintro ⟨earlier, m, later, hns, hbefore, hw, hafter⟩
        cases earlier with
        | nil => exact hbefore.elim
        | cons e es =>
          obtain ⟨rfl, rfl⟩ := List.cons.inj hns
          exact ⟨hbefore.1, es, m, later, rfl, hbefore.2, hw, hafter⟩

/-- Where all walks are done nothing is running, and without a cancellation nothing is left
to start. -/
theorem TracksAll.of_done : ∀ {ws : List Walk} {ns : List Node}, TracksAll status c ws ns →
    ws.all isDone = true →
      (∀ n ∈ ns, n.Quiet status) ∧ (c = false → Node.EndedAll status ns)
  | [], [], _, _ => ⟨fun _ hn => absurd hn List.not_mem_nil, fun _ => trivial⟩
  | w :: ws, n :: ns, h, hdone => by
    rw [List.all_cons, Bool.and_eq_true] at hdone
    obtain ⟨output, rfl⟩ := eq_done_of_isDone hdone.1
    obtain ⟨hquiet, hended⟩ := TracksAll.of_done h.2 hdone.2
    refine ⟨fun m hm => ?_, fun hc => ⟨h.1.2 hc, hended hc⟩⟩
    rcases List.mem_cons.mp hm with rfl | hm
    · exact h.1.1
    · exact hquiet m hm
  | [], _ :: _, h, _ => h.elim
  | _ :: _, [], h, _ => h.elim

-- ---------------------------------------------------------------------------
-- What comes after a completed node
-- ---------------------------------------------------------------------------

/-- A completed node is left when all below it has ended, or when the run was cancelled. -/
theorem tracks_done (hstatus : status n.id = .completed) (output : Option Value)
    (hquiet : ∀ child ∈ n.children, child.Quiet status)
    (hended : c = false → ∀ child ∈ n.children, child.Ended status) :
    (Walk.done output).Tracks status c n := by
  refine ⟨quiet_of_children (by rw [hstatus]; decide) hquiet, fun hc => ?_⟩
  exact Node.ended_iff.mpr (.inr ⟨hstatus, Node.endedAll_iff.mpr (hended hc)⟩)

/-- After the children that have ended comes the first that has not, if the run goes on. -/
theorem tracks_nextInChain (hstatus : status n.id = .completed) (hparallel : n.parallel = false)
    {earlier later : List Node} (hchildren : n.children = earlier ++ later)
    (hquiet : ∀ child ∈ n.children, child.Quiet status)
    (hended : c = false → ∀ e ∈ earlier, e.Ended status) (output : Value) (prev : Option Value) :
    (nextInChain c output prev later).Tracks status c n := by
  cases later with
  | nil =>
    refine tracks_done hstatus _ hquiet ?_
    rw [hchildren, List.append_nil]
    exact hended
  | cons child later =>
    rw [nextInChain]
    split
    · rename_i hc
      exact tracks_done hstatus _ hquiet fun hopen => absurd (hc.symm.trans hopen) (by decide)
    · rename_i hopen
      simp only [hchildren, List.mem_append, List.mem_cons] at hquiet
      refine ⟨hstatus, hparallel, earlier, child, hchildren, fun e he => ?_,
        ⟨rfl, hquiet child (.inr (.inl rfl))⟩, fun e he => hquiet e (.inr (.inr he))⟩
      exact ⟨hquiet e (.inl he), hended (Bool.eq_false_iff.mpr hopen) e he⟩

/-- A completed node is followed by its children, all at once or one by one. -/
theorem tracks_descend (hstatus : status n.id = .completed)
    (hquiet : ∀ child ∈ n.children, child.Quiet status) (output : Value) :
    (descend c n output).Tracks status c n := by
  unfold descend
  split
  · rename_i hnil
    refine tracks_done hstatus _ hquiet ?_
    rw [List.isEmpty_iff.mp hnil]
    exact fun _ _ hchild => absurd hchild List.not_mem_nil
  · split
    · rename_i hparallel
      exact ⟨hstatus, hparallel, tracksAll_fresh (some output) hquiet⟩
    · rename_i hparallel
      exact tracks_nextInChain hstatus (Bool.eq_false_iff.mpr hparallel) (List.nil_append _).symm
        hquiet (fun _ _ he => absurd he List.not_mem_nil) output none

/-- A group of members that are all done leaves its node done. -/
theorem tracks_closeGroup {output : Value} {members : List Walk}
    (h : (Walk.group output members).Tracks status c n) :
    (closeGroup output members).Tracks status c n := by
  unfold closeGroup
  split
  · rename_i hdone
    obtain ⟨hquiet, hended⟩ := h.2.2.of_done hdone
    exact tracks_done h.1 _ hquiet fun hc => Node.endedAll_iff.mp (hended hc)
  · exact h

/-- A chain whose current child is done goes on to the next one. -/
theorem tracks_closeChain {output : Value} {current : Walk} {later : List Node}
    (h : (Walk.chain output current later).Tracks status c n) :
    (closeChain c output current later).Tracks status c n := by
  unfold closeChain
  split
  · rename_i prev
    obtain ⟨hstatus, hparallel, earlier, child, hchildren, hearlier, hcurrent, hlater⟩ := h
    -- the current child joins those that are finished
    have hsplit : n.children = (earlier ++ [child]) ++ later := by simp [hchildren]
    refine tracks_nextInChain hstatus hparallel hsplit ?_ ?_ output prev
    · intro e he
      rw [hchildren, List.mem_append, List.mem_cons] at he
      rcases he with he | rfl | he
      · exact (hearlier e he).quiet
      · exact hcurrent.1
      · exact hlater e he
    · intro hc e he
      rcases List.mem_append.mp he with he | he
      · exact (hearlier e he).ended
      · rw [List.mem_singleton.mp he]
        exact hcurrent.2 hc
  · exact h

end Statuses

-- ---------------------------------------------------------------------------
-- Every step keeps it
-- ---------------------------------------------------------------------------

section Steps

variable {σ : Type} {d : Dispatch σ} {sh sh' : Shared σ} {n : Node} {parent prev : Option Value}

/-- A step changes the statuses of the nodes that it is about and of no others. -/
theorem Touches.status_eq {ids : List String} (h : Touches ids sh sh') {id : String}
    (hid : id ∉ ids) : sh'.ledger.status id = sh.ledger.status id := by
  cases h with
  -- one node changes its status at most, and it is one of those touched
  | quiet hledger _ => rw [hledger]
  | @starts node hnode hmark _ =>
    rw [(Ledger.status_markRunning hmark).2, Function.update_of_ne]
    rintro rfl
    exact hid hnode
  | @ends node hnode outcome hrecord _ =>
    rw [hrecord, status_record, Function.update_of_ne]
    rintro rfl
    exact hid hnode

theorem Move.cancelled {gate : Gate} {w w' : Walk} (h : Move d gate sh w w' sh') :
    sh'.cancelled = sh.cancelled := by
  rw [Shared.cancelled, h.cancelledAt, Shared.cancelled]

/-- With a change at the node itself its children's subtrees stay as they were. -/
theorem children_quiet_update (hd : n.ids.Nodup) {status : String → Status}
    (hquiet : ∀ child ∈ n.children, child.Quiet status) (new : Status) :
    ∀ child ∈ n.children, child.Quiet (Function.update status n.id new) := by
  intro child hchild
  refine (hquiet child hchild).congr fun id hid => Function.update_of_ne ?_ _ _
  rintro rfl
  rw [Node.ids_eq, List.nodup_cons] at hd
  exact hd.1 (Node.ids_subset_of_mem hchild hid)

/-- A pending node that is started is running, with all below it quiet; after a cancellation it
stays as it is. -/
theorem launch_tracks (d : Dispatch σ) (parent prev : Option Value) (hd : n.ids.Nodup)
    (hquiet : n.Quiet sh.ledger.status) (hpending : sh.ledger.status n.id = .pending) :
    (launch d sh n parent prev).1.Tracks (launch d sh n parent prev).2.ledger.status
      sh.cancelled n := by
  unfold launch
  split
  · rename_i hcancel
    exact ⟨hquiet, fun hopen => absurd (hcancel.symm.trans hopen) (by decide)⟩
  · split
    · -- a pending node can be marked
      rename_i hmark
      obtain ⟨hc, hf, hr⟩ := Ledger.status_eq_pending_iff.mp hpending
      rw [Ledger.markRunning_eq_some_iff.mpr ⟨hc, hf, hr, rfl⟩] at hmark
      exact absurd hmark (by simp)
    · rename_i ledger hmark
      have hstatus : ledger.status = Function.update sh.ledger.status n.id .running :=
        (Ledger.status_markRunning hmark).2
      refine ⟨rfl, ?_, ?_⟩
      · show ledger.status n.id = .running
        rw [hstatus, Function.update_self]
      · show ∀ child ∈ n.children, child.Quiet ledger.status
        rw [hstatus]
        exact children_quiet_update hd (children_quiet hquiet) _

/-- A visit leaves the walk standing where the status of its node says. -/
theorem visit_tracks (d : Dispatch σ) (room : Bool) (parent prev : Option Value) (hd : n.ids.Nodup)
    (hquiet : n.Quiet sh.ledger.status) (hvalued : sh.ledger.Valued) :
    (visit d room sh n parent prev).1.Tracks (visit d room sh n parent prev).2.ledger.status
      sh.cancelled n := by
  unfold visit
  split
  · rename_i hstatus
    split
    · exact tracks_descend hstatus (children_quiet hquiet) _
    · -- a completed node has its output
      rename_i hnone
      have hsome := hvalued n.id hstatus
      rw [hnone] at hsome
      exact absurd hsome (by simp)
  · rename_i hstatus
    exact ⟨hquiet, fun _ => Node.ended_iff.mpr (.inl hstatus)⟩
  · rename_i hstatus
    exact absurd hstatus (hquiet n.id (Node.mem_ids_self n))
  · rename_i hstatus
    split
    · exact launch_tracks d parent prev hd hquiet hstatus
    · exact ⟨rfl, hquiet, hstatus⟩

/-- The end of a call stands below a completed node, or at the end of a failed one. -/
theorem settle_tracks (outcome : Except LayerError Value) (hd : n.ids.Nodup)
    (hquiet : ∀ child ∈ n.children, child.Quiet sh.ledger.status) :
    (settle sh n outcome).1.Tracks (settle sh n outcome).2.ledger.status sh.cancelled n := by
  have hstatus : (settle sh n outcome).2.ledger.status =
      Function.update sh.ledger.status n.id (Fragment.ofOutcome outcome).status := by
    rw [settle_ledger, Ledger.status_enter]
    rfl
  rw [hstatus]
  have hbelow := children_quiet_update hd hquiet (Fragment.ofOutcome outcome).status
  cases outcome with
  | ok value => exact tracks_descend (Function.update_self _ _ _) hbelow value
  | error e =>
    refine ⟨quiet_of_children ?_ hbelow, fun _ => Node.ended_iff.mpr (.inl ?_)⟩
    · rw [Function.update_self]
      simp [Fragment.ofOutcome, Fragment.status]
    · exact Function.update_self _ _ _

/-- What one part of a forest does is nothing to the other parts. -/
theorem TracksAll.replace {status status' : String → Status} {c : Bool} {before after : List Walk}
    {w w' : Walk} {ns : List Node} (hd : (Node.idsAll ns).Nodup)
    (h : TracksAll status c (before ++ w :: after) ns)
    (hsame : ∀ id, id ∉ w.ids → status' id = status id)
    (hpart : ∀ n, n.ids.Nodup → w.Tracks status c n → w'.Tracks status' c n) :
    TracksAll status' c (before ++ w' :: after) ns := by
  obtain ⟨earlier, n, later, rfl, hbefore, hw, hafter⟩ := tracksAll_append_iff.mp h
  have hw' := hpart n (Node.nodup_of_mem hd (by simp)) hw
  rw [Node.idsAll_append, Node.idsAll, List.nodup_append, List.nodup_append] at hd
  obtain ⟨-, ⟨-, -, hdlater⟩, hdearlier⟩ := hd
  refine tracksAll_append_iff.mpr ⟨earlier, n, later, rfl, ?_, hw', ?_⟩
  · refine hbefore.mono id fun id hid => hsame id fun hmem => ?_
    exact hdearlier id hid id (List.mem_append_left _ (hw.ids_subset hmem)) rfl
  · refine hafter.mono id fun id hid => hsame id fun hmem => ?_
    exact hdlater id (hw.ids_subset hmem) id hid rfl

/-- Wherever a step is taken, the walk stands where the statuses say before and after. -/
theorem Move.tracks {gate : Gate} {w w' : Walk} (h : Move d gate sh w w' sh')
    (hvalued : sh.ledger.Valued) (hd : n.ids.Nodup)
    (hw : w.Tracks sh.ledger.status sh.cancelled n) :
    w'.Tracks sh'.ledger.status sh.cancelled n := by
  -- Induction on the move: at a leaf the statuses change under the walk that moved; above it,
  -- they change in one child's subtree, and the nodes are distinct.
  induction h generalizing n with
  | visit node parent prev =>
    obtain ⟨rfl, hquiet⟩ := hw
    exact visit_tracks d gate.room parent prev hd hquiet hvalued
  | launch node parent prev _ =>
    obtain ⟨rfl, hquiet, hpending⟩ := hw
    exact launch_tracks d parent prev hd hquiet hpending
  | settle _ =>
    obtain ⟨rfl, -, hquiet⟩ := hw
    exact settle_tracks _ hd hquiet
  | @member output before after w w' sh' hmove ih =>
    obtain ⟨hstatus, hparallel, hmembers⟩ := hw
    rw [Node.ids_eq, List.nodup_cons] at hd
    refine tracks_closeGroup ⟨?_, hparallel, ?_⟩
    · -- the node of the group is not one of those that its members walk through
      rw [hmove.touches.status_eq, hstatus]
      intro hmem
      refine hd.1 (hmembers.ids_subset ?_)
      rw [idsAll_cons_append]
      exact List.mem_append_right _ (List.mem_append_left _ hmem)
    · exact hmembers.replace hd.2 (fun _ => hmove.touches.status_eq) fun _ => ih
  | @current output w w' later sh' hmove ih =>
    obtain ⟨hstatus, hparallel, earlier, child, hchildren, hearlier, hcurrent, hlater⟩ := hw
    rw [Node.ids_eq, List.nodup_cons] at hd
    have hchild : child ∈ n.children := by simp [hchildren]
    have hsame : ∀ {id}, id ∉ child.ids → sh'.ledger.status id = sh.ledger.status id := fun hid =>
      hmove.touches.status_eq fun hmem => hid (hcurrent.ids_subset hmem)
    have hcurrent' := ih (Node.nodup_of_mem hd.2 hchild) hcurrent
    have hdistinct := hd.2
    rw [hchildren, Node.idsAll_append, Node.idsAll, List.nodup_append, List.nodup_append] at hdistinct
    obtain ⟨-, ⟨-, -, hdlater⟩, hdearlier⟩ := hdistinct
    rw [hmove.cancelled]
    refine tracks_closeChain ⟨?_, hparallel, earlier, child, hchildren, ?_, hcurrent', ?_⟩
    · rw [hsame fun hmem => hd.1 (Node.ids_subset_of_mem hchild hmem), hstatus]
    · intro e he
      refine (hearlier e he).congr fun id hid => hsame fun hmem => ?_
      exact hdearlier id (Node.ids_subset_of_mem he hid) id (List.mem_append_left _ hmem) rfl
    · intro e he
      refine (hlater e he).congr fun id hid => hsame fun hmem => ?_
      exact hdlater id hmem id (Node.ids_subset_of_mem he hid) rfl

end Steps

mutual

/-- The way to a node whose call is in flight is open. -/
theorem Tracks.reached {status : String → Status} {c : Bool} : ∀ {w : Walk} {n : Node}
    {call : Node × Call}, w.Tracks status c n → call ∈ w.inFlight → n.Reached status call.1
  | .fresh _ _ _, _, _, _, hcall => absurd hcall List.not_mem_nil
  | .queued _ _ _ _, _, _, _, hcall => absurd hcall List.not_mem_nil
  | .calling _ _, n, call, h, hcall => by
    rw [inFlight, List.mem_singleton] at hcall
    rw [hcall, h.1]
    exact .here n
  | .group _ members, n, call, h, hcall => by
    obtain ⟨child, hchild, hreached⟩ := TracksAll.reached h.2.2 hcall
    exact .member h.1 h.2.1 hchild hreached
  | .chain _ current later, n, call, h, hcall => by
    obtain ⟨hstatus, hparallel, earlier, child, hchildren, hearlier, hcurrent, -⟩ := h
    exact .next hstatus hparallel hchildren hearlier (Tracks.reached hcurrent hcall)
  | .done _, _, _, _, hcall => absurd hcall List.not_mem_nil

theorem TracksAll.reached {status : String → Status} {c : Bool} : ∀ {ws : List Walk} {ns : List Node}
    {call : Node × Call}, TracksAll status c ws ns → call ∈ inFlightAll ws →
      ∃ n ∈ ns, n.Reached status call.1
  | [], [], _, _, hcall => absurd hcall List.not_mem_nil
  | w :: ws, n :: ns, call, h, hcall => by
    rcases List.mem_append.mp hcall with hcall | hcall
    · exact ⟨n, List.mem_cons_self, Tracks.reached h.1 hcall⟩
    · obtain ⟨m, hm, hreached⟩ := TracksAll.reached h.2 hcall
      exact ⟨m, List.mem_cons_of_mem _ hm, hreached⟩
  | [], _ :: _, _, h, _ => h.elim
  | _ :: _, [], _, h, _ => h.elim

end

end Walk

-- ---------------------------------------------------------------------------
-- Whole traversals
-- ---------------------------------------------------------------------------

namespace Traversal

open Walk

variable {σ : Type} {d : Dispatch σ} {p : Plan} {sh : Shared σ} {deeds : List Deed}
  {t t' : Traversal σ}

/-- What holds of the traversal of a plan between two steps, cancelled or not. -/
structure Steady (p : Plan) (t : Traversal σ) : Prop where
  tracks : TracksAll t.shared.ledger.status t.shared.cancelled t.walks p.roots
  runs : t.shared.ledger.Runs t.inFlight
  valued : t.shared.ledger.Valued
  live : LiveAll t.walks

/-- A ledger at rest has nothing running, so every node of the plan is quiet and no call is in
flight. -/
theorem Steady.start (hl : sh.ledger.AtRest) : Steady p (.start p sh) where
  tracks := by
    refine tracksAll_fresh none fun n _ id _ hid => ?_
    have hmem := (Ledger.status_eq_running_iff.mp hid).2.2
    rw [Traversal.start, hl.running] at hmem
    exact absurd hmem List.not_mem_nil
  runs := by
    have hidle : (Traversal.start p sh).inFlight = [] := inFlightAll_fresh none p.roots
    have hrunning : (Traversal.start p sh).shared.ledger.running = [] := hl.running
    refine ⟨?_, ?_, ?_⟩
    · rw [hidle, hrunning]
      exact .refl _
    · rw [hrunning]
      exact List.nodup_nil
    · rw [hrunning]
      exact fun _ hid => absurd hid List.not_mem_nil
  valued := hl.valued
  live := liveAll_fresh p.roots none

/-- A turn keeps the walks where the statuses say, and the running nodes those with a call. -/
theorem Steady.turn (hp : p.ids.Nodup) (h : Steady p t) (hturn : Turn d t t') : Steady p t' := by
  obtain ⟨deed, hdoes, -⟩ := hturn.does
  refine ⟨?_, hdoes.runs h.runs, hdoes.valued h.valued, hturn.live h.live⟩
  have htracks := h.tracks
  have hvalued := h.valued
  obtain ⟨-, -, -, hmove⟩ := hturn
  rename_i before after w w' first last _ _
  show TracksAll last.ledger.status last.cancelled _ p.roots
  rw [hmove.cancelled]
  exact htracks.replace hp (fun _ => hmove.touches.status_eq) fun _ => hmove.tracks hvalued

/-- A traversal stays steady when time passes or when it is cancelled. -/
theorem Steady.meanwhile (h : Steady p t) (hledger : sh.ledger = t.shared.ledger)
    (hcancel : t.shared.cancelled = true → sh.cancelled = true) : Steady p ⟨t.walks, sh⟩ where
  tracks := by
    show TracksAll sh.ledger.status sh.cancelled t.walks p.roots
    rw [hledger]
    refine h.tracks.mono (fun hopen => ?_) fun _ _ => rfl
    by_contra hc
    rw [hcancel (eq_true_of_ne_false hc)] at hopen
    exact absurd hopen (by decide)
  runs := by
    show sh.ledger.Runs t.inFlight
    rw [hledger]
    exact h.runs
  valued := by
    show sh.ledger.Valued
    rw [hledger]
    exact h.valued
  live := h.live

/-- Steadiness holds all along a trace. -/
theorem Trace.steady (hp : p.ids.Nodup) (hl : sh.ledger.AtRest)
    (h : Trace d (.start p sh) deeds t) : Steady p t := by
  induction h with
  | nil => exact .start hl
  | turn _ hturn _ ih => exact ih.turn hp hturn
  | meanwhile _ hledger hcancel ih => exact ih.meanwhile hledger hcancel

/-- More turns are more deeds. -/
theorem Trace.turns {first : Traversal σ} (h : Trace d first deeds t) (hturns : Turns d t t') :
    ∃ more, Trace d first (deeds ++ more) t' := by
  induction hturns with
  | refl => exact ⟨[], by rwa [List.append_nil]⟩
  | tail _ hturn ih =>
    obtain ⟨more, hmore⟩ := ih
    obtain ⟨deed, hdoes, -⟩ := hturn.does
    exact ⟨more ++ [deed], List.append_assoc deeds more [deed] ▸ hmore.turn hturn hdoes⟩

-- ---------------------------------------------------------------------------
-- How often a node is started and ended
-- ---------------------------------------------------------------------------

end Traversal

/-- Whether a deed starts the node with an id. -/
def Walk.Deed.starts (id : String) : Walk.Deed → Bool
  | .start node => node.id == id
  | .rest => false
  | .finish _ _ => false

/-- Whether a deed takes the outcome of the node with an id. -/
def Walk.Deed.finishes (id : String) : Walk.Deed → Bool
  | .finish node _ => node.id == id
  | .rest => false
  | .start _ => false

/-- From where a node stood at first to where it stands, with the numbers of its starts and
of its outcomes in between. It has not been touched, or it was pending and has been started
once, and then it is running or has got its outcome once. -/
inductive Status.Course (first : Status) : Status → Nat → Nat → Prop where
  | untouched : Course first first 0 0
  | running (hfirst : first = .pending) : Course first .running 1 0
  | ended (hfirst : first = .pending) {last : Status} (hlast : last = .completed ∨ last = .failed) :
    Course first last 1 1

/-- A node that is pending has not come any way on its course. -/
theorem Status.Course.of_pending {first : Status} {starts finishes : Nat}
    (h : first.Course .pending starts finishes) : first = .pending ∧ starts = 0 := by
  cases h with
  | untouched => exact ⟨rfl, rfl⟩
  | ended _ hlast => exact absurd hlast (by decide)

/-- Where a node stood and stands tells how often it has been started and ended. -/
theorem Status.Course.counts {first last : Status} {starts finishes : Nat}
    (h : first.Course last starts finishes) :
    (starts, finishes) =
      if last = first then (0, 0) else if last = .running then (1, 0) else (1, 1) := by
  cases h with
  | untouched => rw [if_pos rfl]
  | running hfirst =>
    subst hfirst
    rfl
  | ended hfirst hlast =>
    subst hfirst
    rcases hlast with rfl | rfl <;> rfl

namespace Walk

theorem Deed.ended (outcome : Except LayerError Value) :
    (Fragment.ofOutcome outcome).status = .completed ∨
      (Fragment.ofOutcome outcome).status = .failed := by
  cases outcome with
  | ok value => exact .inl rfl
  | error e => exact .inr rfl

/-- A deed takes a node one step further on its course. -/
theorem Deed.Changes.course {before after : String → Status} {deed : Deed} {id : String}
    {first : Status} {starts finishes : Nat} (h : deed.Changes before after)
    (hfirst : first ≠ .running) (hcourse : first.Course (before id) starts finishes) :
    first.Course (after id) (starts + (if deed.starts id then 1 else 0))
      (finishes + (if deed.finishes id then 1 else 0)) := by
  cases deed with
  | rest =>
    rw [show after = before from h]
    exact hcourse
  | start node =>
    obtain ⟨hpending, rfl⟩ := h
    -- a deed on another node does not count for this one; one on this node moves it a step along
    -- its course
    by_cases hid : node.id = id
    · subst hid
      rw [hpending] at hcourse
      rw [Function.update_self]
      cases hcourse with
      | untouched => simpa [Deed.starts, Deed.finishes] using Status.Course.running rfl
      | ended _ hlast => exact absurd hlast (by decide)
    · rw [Function.update_of_ne (Ne.symm hid)]
      simpa [Deed.starts, Deed.finishes, hid] using hcourse
  | finish node outcome =>
    obtain ⟨hrunning, rfl⟩ := h
    by_cases hid : node.id = id
    · subst hid
      rw [hrunning] at hcourse
      rw [Function.update_self]
      cases hcourse with
      | untouched => exact absurd rfl hfirst
      | running hpending =>
        simpa [Deed.starts, Deed.finishes] using Status.Course.ended hpending (Deed.ended outcome)
      | ended _ hlast => exact absurd hlast (by decide)
    · rw [Function.update_of_ne (Ne.symm hid)]
      simpa [Deed.starts, Deed.finishes, hid] using hcourse

end Walk

namespace Traversal

open Walk

variable {σ : Type} {d : Dispatch σ} {p : Plan} {sh : Shared σ} {deeds : List Deed}
  {t t' : Traversal σ}

/-- Along a trace each node starts at most once and ends at most once, in that order. -/
theorem Trace.course (hp : p.ids.Nodup) (hl : sh.ledger.AtRest)
    (h : Trace d (.start p sh) deeds t) (id : String) :
    (sh.ledger.status id).Course (t.shared.ledger.status id) (deeds.countP (·.starts id))
      (deeds.countP (·.finishes id)) := by
  have hfirst : sh.ledger.status id ≠ .running := by
    intro hid
    have hmem := (Ledger.status_eq_running_iff.mp hid).2.2
    rw [hl.running] at hmem
    exact absurd hmem List.not_mem_nil
  -- Induction on the trace: the course of the node so far is carried, a turn adds one deed to it
  -- and a pause none.
  induction h with
  | nil => exact .untouched
  | turn h _ hdoes ih =>
    have hchanges := hdoes.changes (h.steady hp hl).runs
    rw [List.countP_append, List.countP_append, List.countP_singleton, List.countP_singleton]
    exact hchanges.course hfirst ih
  | meanwhile _ hledger _ ih => rwa [hledger]

-- ---------------------------------------------------------------------------
-- Which nodes start
-- ---------------------------------------------------------------------------

end Traversal

/-- What the statuses say when the node at a place starts: it is pending, its ancestors have
completed, and where it comes after siblings, these have ended and nothing in their subtrees
is running. -/
structure Plan.StartsIn (p : Plan) (status : String → Status) (s : Site) : Prop where
  pending : status s.node.id = .pending
  parent : ∀ q, s.parent = some q → status q.id = .completed
  above : ∀ a ∈ p.sites, s.node.id ∈ Node.idsAll a.node.children → status a.node.id = .completed
  failed : ∀ a ∈ p.sites, status a.node.id = .failed → s.node.id ∉ Node.idsAll a.node.children
  before : ∀ q, s.parent = some q → q.parallel = false → ∀ e ∈ q.children.take s.index,
    (status e.id = .completed ∨ status e.id = .failed) ∧ ∀ id ∈ e.ids, status id ≠ .running

/-- A node that may start stands below its completed parent, behind its finished earlier siblings if
they go one by one. -/
theorem Plan.Eligible.startsIn {p : Plan} {status : String → Status} {s : Site}
    (h : p.Eligible status s) : p.StartsIn status s := by
  -- the parent is one of the nodes that do not stand in the way
  have hparent : ∀ q, s.parent = some q →
      q.Passes status s.node.id ∧ q.children[s.index]? = some s.node := by
    intro q hq
    rcases Plan.parent_of_mem_sites h.mem with ⟨hnone, -⟩ | ⟨a, ha, hsome, -, hchild⟩
    · exact absurd (hnone.symm.trans hq) (by simp)
    · obtain rfl := Option.some.inj (hsome.symm.trans hq)
      exact ⟨h.passes a ha, hchild⟩
  refine ⟨h.pending, fun q hq => ?_, fun a ha => (h.passes a ha).above, fun a ha hfailed hmem => ?_,
    fun q hq hparallel e he => ?_⟩
  · obtain ⟨hpasses, hchild⟩ := hparent q hq
    refine hpasses.above (Node.ids_subset_of_mem ?_ (Node.mem_ids_self s.node))
    exact List.mem_of_getElem? hchild
  · rw [(h.passes a ha).above hmem] at hfailed
    exact absurd hfailed (by decide)
  · obtain ⟨hpasses, hchild⟩ := hparent q hq
    obtain ⟨hlt, hget⟩ := List.getElem?_eq_some_iff.mp hchild
    have hsplit : q.children = q.children.take s.index ++ s.node :: q.children.drop (s.index + 1) := by
      rw [← hget, ← List.drop_eq_getElem_cons hlt, List.take_append_drop]
    have hfinished := hpasses.before hparallel hsplit (Node.mem_ids_self s.node) e he
    exact ⟨hfinished.ended.completed_or_failed, hfinished.quiet⟩

namespace Traversal

open Walk

variable {σ : Type} {d : Dispatch σ} {p : Plan} {sh : Shared σ} {deeds : List Deed}
  {t t' : Traversal σ}

/-- A node that starts is one of the plan that may start. -/
theorem Steady.eligible (hp : p.ids.Nodup) (h : Steady p t) (hturn : Turn d t t') {node : Node}
    (hdoes : Does d t t' (.start node)) :
    ∃ s, s.node = node ∧ p.Eligible t.shared.ledger.status s := by
  obtain ⟨hpending, hstatus⟩ := hdoes.changes h.runs
  -- after the turn the node's call is in flight, and the way to it is open
  have hcall : ∃ call, (node, call) ∈ t'.inFlight := by
    cases hdoes with
    | @start _ _ _ call _ _ _ _ hcalls => exact ⟨call, hcalls.mem_iff.mpr List.mem_cons_self⟩
  obtain ⟨call, hcall⟩ := hcall
  obtain ⟨root, hroot, hreached⟩ := (h.turn hp hturn).tracks.reached hcall
  -- the way is about nodes that are not running, so it was open before
  have hbefore : root.Reached t.shared.ledger.status node := by
    refine hreached.of_running fun id hid => ?_
    rw [hstatus] at hid ⊢
    refine (Function.update_of_ne ?_ _ _).symm
    rintro rfl
    exact hid (Function.update_self _ _ _)
  obtain ⟨s, hs, rfl, hpasses⟩ := Plan.exists_site_of_reached hp hroot hbefore
  exact ⟨s, rfl, hs, hpending, hpasses⟩

/-- **Start order.** A plan of distinct ids is walked through from whatever an earlier attempt
has left, in whichever order the calls end, and it is cancelled at whichever moment or not at
all. Then at every moment every node is where it stood at first, or it was pending and has
been started once, and is running or has got one outcome; the running nodes are those with a
call in flight, so none is when the traversal is over. Whichever turn comes next changes the
status of a node only from pending to running with the start of its call, or from running to
that of its outcome; and a node that starts was pending from the beginning, has never been
started before, and starts in its order. -/
theorem start_order (hp : p.ids.Nodup) (hl : sh.ledger.AtRest)
    (h : Trace d (.start p sh) deeds t) :
    (∀ id, (sh.ledger.status id).Course (t.shared.ledger.status id)
      (deeds.countP (·.starts id)) (deeds.countP (·.finishes id))) ∧
    (∀ id, t.shared.ledger.status id = .running ↔ ∃ c ∈ t.inFlight, c.1.id = id) ∧
    (t.isOver = true → ∀ id, t.shared.ledger.status id ≠ .running) ∧
    ∀ t', Turn d t t' → (∃ deed, Does d t t' deed) ∧ ∀ deed, Does d t t' deed →
      deed.Changes t.shared.ledger.status t'.shared.ledger.status ∧
      ∀ node, deed = .start node →
        sh.ledger.status node.id = .pending ∧ deeds.countP (·.starts node.id) = 0 ∧
          ∃ s ∈ p.sites, s.node = node ∧ p.StartsIn t.shared.ledger.status s := by
  have hsteady := h.steady hp hl
  have hrunning : ∀ id, t.shared.ledger.status id = .running ↔ ∃ c ∈ t.inFlight, c.1.id = id := by
    intro id
    refine ⟨exists_call_of_status hsteady.runs, ?_⟩
    rintro ⟨c, hc, rfl⟩
    exact status_of_mem_calls hsteady.runs hc
  refine ⟨h.course hp hl, hrunning, fun hover id hid => ?_, fun t' hturn => ⟨?_, ?_⟩⟩
  · -- where all walks are done there is no call that could keep a node running
    obtain ⟨c, hc, -⟩ := (hrunning id).mp hid
    rw [inFlight, inFlightAll_done hover] at hc
    exact absurd hc List.not_mem_nil
  · obtain ⟨deed, hdoes, -⟩ := hturn.does
    exact ⟨deed, hdoes⟩
  · intro deed hdoes
    refine ⟨hdoes.changes hsteady.runs, ?_⟩
    -- a start is a visit that reached its node, and what it passed on the way says why
    rintro node rfl
    obtain ⟨s, rfl, heligible⟩ := hsteady.eligible hp hturn hdoes
    have hcourse := h.course hp hl s.node.id
    rw [heligible.pending] at hcourse
    obtain ⟨hfirst, hstarts⟩ := hcourse.of_pending
    exact ⟨hfirst, hstarts, s, heligible.mem, rfl, heligible.startsIn⟩

-- ---------------------------------------------------------------------------
-- A plan taken up again and cancelled
-- ---------------------------------------------------------------------------

/-- A number of the steps that are really taken at the present time. -/
def steps? (d : Dispatch σ) : Nat → Traversal σ → Option (Traversal σ)
  | 0, t => some t
  | n + 1, t =>
    match stepAll? d t.shared t.walks with
    | none => none
    | some (walks, sh) => steps? d n ⟨walks, sh⟩

/-- A run of steps of the engine is an interleaving. -/
theorem turns_of_steps? {n : Nat} (h : steps? d n t = some t') : Turns d t t' := by
  induction n generalizing t with
  | zero =>
    obtain rfl := Option.some.inj h
    exact .refl
  | succ n ih =>
    unfold steps? at h
    split at h
    · exact absurd h (by simp)
    · rename_i walks sh hstep
      exact .head (turn_of_stepAll? (Nat.le_refl _) hstep) (ih h)

/-- What is left of an attempt in which only the first root of the plan completed. -/
def echoResumed : Shared Unit :=
  { echoShared with ledger := (Ledger.start 5).markCompleted "a" (.str "kept") }

/-- The traversal of that plan, cancelled after the failure of the first child. -/
def echoCancelled? : Option (Traversal Unit) :=
  match steps? echoDispatch 3 (.start echoPlan echoResumed) with
  | none => none
  | some t => steps? echoDispatch 2 ⟨t.walks, { t.shared with cancelledAt := some 0 }⟩

theorem trace_of_echoCancelled? {t : Traversal Unit} (h : echoCancelled? = some t) :
    ∃ deeds, Trace echoDispatch (.start echoPlan echoResumed) deeds t := by
  unfold echoCancelled? at h
  split at h
  · exact absurd h (by simp)
  · rename_i t₁ hfirst
    obtain ⟨deeds, hdeeds⟩ := Trace.nil.turns (turns_of_steps? hfirst)
    have hcancel : Trace echoDispatch (.start echoPlan echoResumed) ([] ++ deeds)
        ⟨t₁.walks, { t₁.shared with cancelledAt := some 0 }⟩ := hdeeds.meanwhile rfl fun _ => rfl
    obtain ⟨more, hmore⟩ := hcancel.turns (turns_of_steps? h)
    exact ⟨_, hmore⟩

/-- The root is not called again, its first child is called and fails, and the cancellation
keeps all others from starting. -/
theorem start_order_echo :
    (echoPlan.ids.Nodup ∧ echoResumed.ledger.AtRest) ∧
      ∃ deeds t, Trace echoDispatch (.start echoPlan echoResumed) deeds t ∧ t.isOver = true ∧
        t.shared.ledger.status "b" = .failed ∧
        (deeds.countP (·.starts "a"), deeds.countP (·.finishes "a")) = (0, 0) ∧
        (deeds.countP (·.starts "b"), deeds.countP (·.finishes "b")) = (1, 1) ∧
        (deeds.countP (·.starts "c"), deeds.countP (·.finishes "c")) = (0, 0) := by
  have hp : echoPlan.ids.Nodup := by decide
  have hl : echoResumed.ledger.AtRest := by
    refine ⟨rfl, fun id hid => ?_⟩
    obtain rfl : id = "a" := by
      simpa [echoResumed, Ledger.markCompleted, Ledger.start, IdSet.insert] using
        Ledger.status_eq_completed_iff.mp hid
    rfl
  have hrun : echoCancelled?.any (fun t => t.isOver && decide (t.shared.ledger.status "a" = .completed ∧
      t.shared.ledger.status "b" = .failed ∧ t.shared.ledger.status "c" = .pending)) = true := by
    decide
  obtain ⟨t, hsome, htest⟩ := (Option.any_eq_true _ _).mp hrun
  rw [Bool.and_eq_true, decide_eq_true_eq] at htest
  obtain ⟨hover, ha, hb, hc⟩ := htest
  obtain ⟨deeds, htrace⟩ := trace_of_echoCancelled? hsome
  have hcourse := (start_order hp hl htrace).1
  refine ⟨⟨hp, hl⟩, deeds, t, htrace, hover, hb, ?_, ?_, ?_⟩
  · rw [(hcourse "a").counts, ha]
    rfl
  · rw [(hcourse "b").counts, hb]
    rfl
  · rw [(hcourse "c").counts, hc]
    rfl

end Traversal

end PlanRunner
