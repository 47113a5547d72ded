import PlanRunner.Proofs.Plan.Position
import PlanRunner.Proofs.Run.Evaluation

/-!
# PlanRunner — how far a plan has come

How far the execution of a plan has come can be read off the statuses of its nodes. Some
subtrees are finished. A node whose ancestors have completed is reached, unless it waits
in a row for the subtrees of the siblings before it. Where ids are distinct, the way to a
node can be described from the node: by every node above it.

* `Node.Finished` — nothing of a subtree is running, and nothing can start any more;
* `Node.Reached` — the way from a node down to another is open;
* `Node.Passes`, `Plan.Eligible` — the same seen from below, node by node;
* `Node.Reached.passes` — the two agree;
* `Node.EndedAll.terminal` — in a plan that has ended there is nothing below completed
  ancestors that has not ended.
-/

namespace PlanRunner

namespace Node

-- ---------------------------------------------------------------------------
-- Finished subtrees
-- ---------------------------------------------------------------------------

/-- No node of a subtree is running. -/
def Quiet (status : String → Status) (n : Node) : Prop := ∀ id ∈ n.ids, status id ≠ .running

mutual

/-- Nothing of a subtree is left to start: its node has failed, or it has completed and
nothing is left of its children. -/
def Ended (status : String → Status) : Node → Prop
  | ⟨id, _, _, _, _, children⟩ =>
    status id = .failed ∨ status id = .completed ∧ EndedAll status children

def EndedAll (status : String → Status) : List Node → Prop
  | [] => True
  | n :: ns => n.Ended status ∧ EndedAll status ns

end

/-- A subtree in which nothing is running and nothing is left to start. -/
structure Finished (status : String → Status) (n : Node) : Prop where
  quiet : n.Quiet status
  ended : n.Ended status

variable {status status' : String → Status}

/-- A node has ended when it failed, or completed with all below it ended. -/
theorem ended_iff {n : Node} :
    n.Ended status ↔
      status n.id = .failed ∨ status n.id = .completed ∧ EndedAll status n.children := by
  cases n
  rw [Ended]

/-- A forest has ended when all its nodes have. -/
theorem endedAll_iff {ns : List Node} : EndedAll status ns ↔ ∀ n ∈ ns, n.Ended status := by
  induction ns with
  | nil => simp [EndedAll]
  | cons n ns ih => simp [EndedAll, ih]

/-- The node of a finished subtree has an outcome. -/
theorem Ended.completed_or_failed {n : Node} (h : n.Ended status) :
    status n.id = .completed ∨ status n.id = .failed :=
  (ended_iff.mp h).elim .inr fun h => .inl h.1

/-- Quietness is about the statuses in the subtree alone. -/
theorem Quiet.congr {n : Node} (h : n.Quiet status) (hsame : ∀ id ∈ n.ids, status' id = status id) :
    n.Quiet status' := by
  intro id hid
  rw [hsame id hid]
  exact h id hid

mutual

/-- So is having ended. -/
theorem Ended.congr : ∀ {n : Node}, n.Ended status → (∀ id ∈ n.ids, status' id = status id) →
    n.Ended status'
  | ⟨id, _, _, _, _, children⟩, h, hsame => by
    rw [Ended] at h ⊢
    rw [hsame id (by simp [ids])]
    refine h.imp_right fun h => ⟨h.1, h.2.congr fun id hid => ?_⟩
    exact hsame id (by simp [ids, hid])

/-- A forest has ended as long as its statuses stay. -/
theorem EndedAll.congr : ∀ {ns : List Node}, EndedAll status ns →
    (∀ id ∈ idsAll ns, status' id = status id) → EndedAll status' ns
  | [], _, _ => trivial
  | n :: ns, h, hsame => by
    refine ⟨h.1.congr fun id hid => hsame id ?_, h.2.congr fun id hid => hsame id ?_⟩
    · rw [idsAll]
      exact List.mem_append_left _ hid
    · rw [idsAll]
      exact List.mem_append_right _ hid

end

/-- Being finished is about the statuses in the subtree alone. -/
theorem Finished.congr {n : Node} (h : n.Finished status)
    (hsame : ∀ id ∈ n.ids, status' id = status id) : n.Finished status' :=
  ⟨h.quiet.congr hsame, h.ended.congr hsame⟩

theorem mem_ids_of_mem_children {n : Node} {id : String} (h : id ∈ idsAll n.children) :
    id ∈ n.ids := by
  rw [ids_eq]
  exact List.mem_cons_of_mem _ h

/-- The ids of a node are among those of its forest. -/
theorem ids_subset_of_mem {n : Node} {ns : List Node} (h : n ∈ ns) : n.ids ⊆ idsAll ns :=
  fun _ hid => mem_idsAll_iff.mpr ⟨n, h, hid⟩

-- ---------------------------------------------------------------------------
-- The way down to a node
-- ---------------------------------------------------------------------------

/-- The way from a node down to another is open: every node before it has completed, and
where children come one after the other, the subtrees before it are finished. -/
inductive Reached (status : String → Status) : Node → Node → Prop where
  | here (n : Node) : Reached status n n
  | member {n child m : Node} (hstatus : status n.id = .completed) (hparallel : n.parallel = true)
      (hchild : child ∈ n.children) (h : Reached status child m) : Reached status n m
  | next {n child m : Node} {earlier later : List Node} (hstatus : status n.id = .completed)
      (hparallel : n.parallel = false) (hchildren : n.children = earlier ++ child :: later)
      (hearlier : ∀ e ∈ earlier, e.Finished status) (h : Reached status child m) :
      Reached status n m

/-- A way is open on account of nodes that are not running, so it was open when only
running nodes were different. -/
theorem Reached.of_running {n m : Node} (h : Reached status' n m)
    (hsame : ∀ id, status' id ≠ .running → status id = status' id) : Reached status n m := by
  have hcompleted : ∀ {id}, status' id = .completed → status id = .completed := by
    intro id hid
    rw [hsame id (by rw [hid]; decide), hid]
  induction h with
  | here n => exact .here n
  | member hstatus hparallel hchild _ ih => exact .member (hcompleted hstatus) hparallel hchild ih
  | next hstatus hparallel hchildren hearlier _ ih =>
    refine .next (hcompleted hstatus) hparallel hchildren (fun e he => ?_) ih
    exact (hearlier e he).congr fun id hid => hsame id ((hearlier e he).quiet id hid)

/-- What is reached from a node is below it. -/
theorem Reached.mem_ids {n m : Node} (h : Reached status n m) : m.id ∈ n.ids := by
  induction h with
  | here n => exact mem_ids_self n
  | member _ _ hchild _ ih => exact mem_ids_of_mem_children (ids_subset_of_mem hchild ih)
  | next _ _ hchildren _ _ ih =>
    refine mem_ids_of_mem_children (ids_subset_of_mem ?_ ih)
    rw [hchildren]
    simp

-- ---------------------------------------------------------------------------
-- The same way seen from below
-- ---------------------------------------------------------------------------

/-- A node does not stand in the way of another. If the other is below it, it has
completed; and if its children come one after the other, the subtrees before the one with
the other node are finished. -/
structure Passes (status : String → Status) (target : String) (n : Node) : Prop where
  above : target ∈ idsAll n.children → status n.id = .completed
  before : n.parallel = false → ∀ {earlier child later}, n.children = earlier ++ child :: later →
    target ∈ child.ids → ∀ e ∈ earlier, e.Finished status

/-- A node does not stand in the way of what is not below it. -/
theorem passes_of_notMem {target : String} {n : Node} (h : target ∉ idsAll n.children) :
    n.Passes status target where
  above := fun hmem => absurd hmem h
  before := by
    intro _ earlier child later hchildren hmem
    refine absurd (ids_subset_of_mem ?_ hmem) h
    rw [hchildren]
    simp

/-- The ids below a site are among those of the subtree. -/
theorem ids_subset_of_mem_sites {parent : Option Node} {above : List Nat} {index : Nat} {n : Node}
    {s : Site} (h : s ∈ n.sites parent above index) : s.node.ids ⊆ n.ids := by
  rw [← map_id_sites s.parent s.above s.index, ← map_id_sites parent above index]
  exact ((sites_sublist_of_mem_sites h).map _).subset

/-- The ids below a site are among those of the forest. -/
theorem ids_subset_of_mem_sitesAll {parent : Option Node} {above : List Nat} {index : Nat}
    {ns : List Node} {s : Site} (h : s ∈ sitesAll parent above index ns) : s.node.ids ⊆ idsAll ns := by
  rw [← map_id_sites s.parent s.above s.index, ← map_id_sitesAll parent above index]
  exact ((sites_sublist_of_mem_sitesAll h).map _).subset

/-- A site below several nodes is below one of them. -/
theorem exists_of_mem_sitesAll {parent : Option Node} {above : List Nat} {index : Nat}
    {ns : List Node} {s : Site} (h : s ∈ sitesAll parent above index ns) :
    ∃ n ∈ ns, ∃ i, s ∈ n.sites parent above i := by
  induction ns generalizing index with
  | nil => simp [sitesAll] at h
  | cons n ns ih =>
    rw [sitesAll] at h
    rcases List.mem_append.mp h with h | h
    · exact ⟨n, List.mem_cons_self, index, h⟩
    · obtain ⟨m, hm, i, hs⟩ := ih h
      exact ⟨m, List.mem_cons_of_mem _ hm, i, hs⟩

/-- The sites of a node are among those of its forest. -/
theorem mem_sitesAll_of_mem (parent : Option Node) (above : List Nat) (index : Nat) {n : Node}
    {ns : List Node} (h : n ∈ ns) :
    ∃ i, ∀ s ∈ n.sites parent above i, s ∈ sitesAll parent above index ns := by
  induction ns generalizing index with
  | nil => exact absurd h List.not_mem_nil
  | cons m ms ih =>
    simp only [sitesAll, List.mem_append]
    rcases List.mem_cons.mp h with rfl | h
    · exact ⟨index, fun s hs => .inl hs⟩
    · obtain ⟨i, hi⟩ := ih (index + 1) h
      exact ⟨i, fun s hs => .inr (hi s hs)⟩

/-- In a list of subtrees with distinct ids an id belongs to one of them, which stands at
one place. -/
theorem split_eq_of_mem_ids {ns before before' after after' : List Node} {n n' : Node} {id : String}
    (hd : (idsAll ns).Nodup) (hns : ns = before ++ n :: after) (hns' : ns = before' ++ n' :: after')
    (hid : id ∈ n.ids) (hid' : id ∈ n'.ids) : before = before' ∧ n = n' := by
  -- induction on the siblings before; the id is in one of the nodes only, so neither split can be
  -- longer
  induction before generalizing ns before' with
  | nil =>
    subst hns
    cases before' with
    | nil => exact ⟨rfl, (List.cons.inj hns').1⟩
    | cons m ms =>
      obtain ⟨rfl, hafter⟩ := List.cons.inj hns'
      rw [List.nil_append, idsAll, List.nodup_append] at hd
      refine absurd rfl (hd.2.2 id hid id (ids_subset_of_mem ?_ hid'))
      rw [hafter]
      simp
  | cons m ms ih =>
    subst hns
    cases before' with
    | nil =>
      obtain ⟨rfl, hafter⟩ := List.cons.inj hns'
      rw [List.cons_append, idsAll, List.nodup_append] at hd
      exact absurd rfl (hd.2.2 id hid' id (ids_subset_of_mem (by simp) hid))
    | cons m' ms' =>
      obtain ⟨rfl, hrest⟩ := List.cons.inj hns'
      rw [List.cons_append, idsAll] at hd
      obtain ⟨rfl, hn⟩ := ih (List.nodup_append.mp hd).2.1 rfl hrest
      exact ⟨rfl, hn⟩

/-- An id is in one node of a forest only. -/
theorem eq_of_mem_ids {ns : List Node} {n m : Node} {id : String} (hd : (idsAll ns).Nodup)
    (hn : n ∈ ns) (hm : m ∈ ns) (hid : id ∈ n.ids) (hid' : id ∈ m.ids) : n = m := by
  obtain ⟨before, after, hns⟩ := List.append_of_mem hn
  obtain ⟨before', after', hns'⟩ := List.append_of_mem hm
  exact (split_eq_of_mem_ids hd hns hns' hid hid').2

/-- A node of a forest without repeated ids has none. -/
theorem nodup_of_mem {ns : List Node} {n : Node} (hd : (idsAll ns).Nodup) (hn : n ∈ ns) :
    n.ids.Nodup := by
  obtain ⟨before, after, rfl⟩ := List.append_of_mem hn
  rw [idsAll_append, idsAll] at hd
  exact (List.nodup_append.mp (List.nodup_append.mp hd).2.1).1

/-- If nothing in the subtree of a node stands in the way of a node there, nothing in the
other subtrees does. -/
theorem passes_of_mem {parent : Option Node} {above : List Nat} {index : Nat} {ns : List Node}
    {child : Node} {target : String} (hd : (idsAll ns).Nodup) (hchild : child ∈ ns)
    (htarget : target ∈ child.ids)
    (hpass : ∀ parent above index, ∀ a ∈ child.sites parent above index, a.node.Passes status target) :
    ∀ a ∈ sitesAll parent above index ns, a.node.Passes status target := by
  intro a ha
  obtain ⟨other, hother, i, ha⟩ := exists_of_mem_sitesAll ha
  by_cases hmem : target ∈ idsAll a.node.children
  · have htarget' : target ∈ other.ids :=
      ids_subset_of_mem_sites ha (mem_ids_of_mem_children hmem)
    obtain rfl := eq_of_mem_ids hd hchild hother htarget htarget'
    exact hpass _ _ _ a ha
  · exact passes_of_notMem hmem

/-- On an open way nothing stands in the way of the node at its end. -/
theorem Reached.passes {n m : Node} (h : Reached status n m) (hd : n.ids.Nodup) :
    ∀ parent above index, ∀ a ∈ n.sites parent above index, a.node.Passes status m.id := by
  induction h with
  | here n =>
    intro parent above index a ha
    refine passes_of_notMem fun hmem => ?_
    -- below the node there would be another one with its id
    rw [sites_eq, List.mem_cons] at ha
    rw [ids_eq, List.nodup_cons] at hd
    refine hd.1 ?_
    rcases ha with rfl | ha
    · exact hmem
    · exact ids_subset_of_mem_sitesAll ha (mem_ids_of_mem_children hmem)
  | @member n child m hstatus hparallel hchild hreached ih =>
    intro parent above index a ha
    rw [ids_eq, List.nodup_cons] at hd
    rw [sites_eq, List.mem_cons] at ha
    rcases ha with rfl | ha
    · exact ⟨fun _ => hstatus, fun hseq => absurd (hparallel.symm.trans hseq) (by decide)⟩
    · exact passes_of_mem hd.2 hchild hreached.mem_ids (ih (nodup_of_mem hd.2 hchild)) a ha
  | @next n child m earlier later hstatus hparallel hchildren hearlier hreached ih =>
    intro parent above index a ha
    rw [ids_eq, List.nodup_cons] at hd
    rw [sites_eq, List.mem_cons] at ha
    rcases ha with rfl | ha
    · refine ⟨fun _ => hstatus, fun _ earlier' child' later' hchildren' hmem => ?_⟩
      obtain ⟨rfl, -⟩ := split_eq_of_mem_ids hd.2 hchildren hchildren' hreached.mem_ids hmem
      exact hearlier
    · have hchild : child ∈ n.children := by
        rw [hchildren]
        simp
      exact passes_of_mem hd.2 hchild hreached.mem_ids (ih (nodup_of_mem hd.2 hchild)) a ha

/-- What is reached stands at a site below. -/
theorem Reached.exists_site {n m : Node} (h : Reached status n m) :
    ∀ parent above index, ∃ s ∈ n.sites parent above index, s.node = m := by
  -- induction on the way down, which may start anywhere
  induction h with
  | here n =>
    intro parent above index
    rw [sites_eq]
    exact ⟨_, List.mem_cons_self, rfl⟩
  | @member n child m _ _ hchild _ ih =>
    intro parent above index
    rw [sites_eq]
    obtain ⟨i, hi⟩ := mem_sitesAll_of_mem (some n) (index :: above) 0 hchild
    obtain ⟨s, hs, hnode⟩ := ih (some n) (index :: above) i
    exact ⟨s, List.mem_cons_of_mem _ (hi s hs), hnode⟩
  | @next n child m earlier later _ _ hchildren _ _ ih =>
    intro parent above index
    rw [sites_eq]
    have hchild : child ∈ n.children := by
      rw [hchildren]
      simp
    obtain ⟨i, hi⟩ := mem_sitesAll_of_mem (some n) (index :: above) 0 hchild
    obtain ⟨s, hs, hnode⟩ := ih (some n) (index :: above) i
    exact ⟨s, List.mem_cons_of_mem _ (hi s hs), hnode⟩

-- ---------------------------------------------------------------------------
-- What has ended
-- ---------------------------------------------------------------------------

mutual

/-- Below completed ancestors nothing is left in a subtree that has ended. -/
theorem Ended.terminal : ∀ {parent : Option Node} {above : List Nat} {index : Nat} {n : Node}
    {s : Site}, n.Ended status → s ∈ n.sites parent above index →
      (∀ a ∈ n.sites parent above index, s.node.id ∈ idsAll a.node.children →
        status a.node.id = .completed) →
      status s.node.id = .completed ∨ status s.node.id = .failed
  | parent, above, index, ⟨id, layer, function, args, parallel, children⟩, s, hended, hs, habove => by
    rw [sites] at hs habove
    rcases List.mem_cons.mp hs with rfl | hs
    · rw [Ended] at hended
      exact hended.elim .inr fun h => .inl h.1
    · have hmem : s.node.id ∈ idsAll children :=
        ids_subset_of_mem_sitesAll hs (mem_ids_self s.node)
      -- the site is below this node, so the node has completed and what is below it has ended
      have hstatus : status id = .completed := habove _ List.mem_cons_self hmem
      rw [Ended, hstatus] at hended
      refine EndedAll.terminal (hended.resolve_left (by decide)).2 hs fun a ha => ?_
      exact habove a (List.mem_cons_of_mem _ ha)

/-- In a forest that has ended, a site below completed nodes has ended too. -/
theorem EndedAll.terminal : ∀ {parent : Option Node} {above : List Nat} {index : Nat}
    {ns : List Node} {s : Site}, EndedAll status ns → s ∈ sitesAll parent above index ns →
      (∀ a ∈ sitesAll parent above index ns, s.node.id ∈ idsAll a.node.children →
        status a.node.id = .completed) →
      status s.node.id = .completed ∨ status s.node.id = .failed
  | _, _, _, [], s, _, hs, _ => by simp [sitesAll] at hs
  | parent, above, index, n :: ns, s, hended, hs, habove => by
    rw [sitesAll] at hs habove
    rcases List.mem_append.mp hs with hs | hs
    · exact hended.1.terminal hs fun a ha => habove a (List.mem_append_left _ ha)
    · exact hended.2.terminal hs fun a ha => habove a (List.mem_append_right _ ha)

end

end Node

-- ---------------------------------------------------------------------------
-- Plans
-- ---------------------------------------------------------------------------

namespace Plan

/-- A node of a plan that may start: it is pending, and no node stands in its way. -/
structure Eligible (p : Plan) (status : String → Status) (s : Site) : Prop where
  mem : s ∈ p.sites
  pending : status s.node.id = .pending
  passes : ∀ a ∈ p.sites, a.node.Passes status s.node.id

variable {p : Plan} {status : String → Status}

/-- A node that a root's open way leads to is one of the plan, with nothing in its way. -/
theorem exists_site_of_reached (hd : p.ids.Nodup) {root m : Node} (hroot : root ∈ p.roots)
    (h : root.Reached status m) :
    ∃ s ∈ p.sites, s.node = m ∧ ∀ a ∈ p.sites, a.node.Passes status m.id := by
  obtain ⟨i, hi⟩ := Node.mem_sitesAll_of_mem none [] 0 hroot
  obtain ⟨s, hs, hnode⟩ := h.exists_site none [] i
  refine ⟨s, hi s hs, hnode, ?_⟩
  exact Node.passes_of_mem hd hroot h.mem_ids (h.passes (Node.nodup_of_mem hd hroot))

/-- In a plan that has ended no node may start. -/
theorem Eligible.not_ended {s : Site} (h : p.Eligible status s) : ¬ Node.EndedAll status p.roots := by
  intro hended
  have hterminal := hended.terminal h.mem fun a ha hmem => (h.passes a ha).above hmem
  rw [h.pending] at hterminal
  exact hterminal.elim (by decide) (by decide)

end Plan

end PlanRunner
