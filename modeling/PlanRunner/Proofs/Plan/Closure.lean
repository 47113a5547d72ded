import Mathlib.Logic.Relation
import PlanRunner.Proofs.Plan.Dependents
import PlanRunner.Proofs.Plan.Frontier

/-!
# PlanRunner — dependents are closed under what calls read

A call reads the output of its parent and, in a group that runs in order, that of the sibling just
before it. What depends on a node is what this leads to from there, in any number of steps and
however parents and siblings take turns.

* `Plan.Feeds` — the output of one node is read by another;
* `Plan.Feeds.mem_ids` — what a subtree feeds outside of it is the next sibling of its node;
* `Plan.depends_iff` — what depends on a node is what its output leads to;
* `Plan.dependents?_closure` — these nodes are listed, in the order of the plan.
-/

namespace PlanRunner

/-- The output of one node is read by another: by a child, or in a group that runs in order by the
sibling just after it. Roots have no parent, and so no group of theirs runs in order. -/
inductive Plan.Feeds (p : Plan) : (source reader : String) → Prop where
  | child {s : Site} {child : Node} (hs : s ∈ p.sites) (hchild : child ∈ s.node.children) :
      p.Feeds s.node.id child.id
  | next {s : Site} {index : Nat} {child next : Node} (hs : s ∈ p.sites)
      (hchain : s.node.parallel = false) (hchild : s.node.children[index]? = some child)
      (hnext : s.node.children[index + 1]? = some next) : p.Feeds child.id next.id

-- ---------------------------------------------------------------------------
-- Subtrees of a plan
-- ---------------------------------------------------------------------------

namespace Node

/-- The ids of the nodes of a list from an index on. -/
theorem mem_idsAll_drop_iff {ns : List Node} {index : Nat} {id : String} :
    id ∈ idsAll (ns.drop index) ↔ ∃ i n, ns[index + i]? = some n ∧ id ∈ n.ids := by
  rw [mem_idsAll_iff]
  constructor
  · rintro ⟨n, hn, hid⟩
    obtain ⟨i, hi⟩ := List.mem_iff_getElem?.mp hn
    exact ⟨i, n, List.getElem?_drop.symm.trans hi, hid⟩
  · rintro ⟨i, n, hn, hid⟩
    exact ⟨n, List.mem_of_getElem? (List.getElem?_drop.trans hn), hid⟩

theorem idsAll_drop_sublist (ns : List Node) (index : Nat) :
    (idsAll (ns.drop index)).Sublist (idsAll ns) := by
  conv => rhs; rw [← List.take_append_drop index ns, idsAll_append]
  exact List.sublist_append_right _ _

end Node

namespace Plan

variable {p : Plan} {s : Site}

/-- The subtree of a site is a stretch of the plan. -/
theorem sites_sublist (hs : s ∈ p.sites) :
    (s.node.sites s.parent s.above s.index).Sublist p.sites :=
  Node.sites_sublist_of_mem_sitesAll hs

/-- Its ids are among those of the plan, in the same order. -/
theorem ids_sublist (hs : s ∈ p.sites) : s.node.ids.Sublist p.ids := by
  rw [← map_id_sites, ← Node.map_id_sites s.parent s.above s.index]
  exact (sites_sublist hs).map _

/-- The children of a node of the plan stand where its children are. -/
theorem child_mem_sites (hs : s ∈ p.sites) {index : Nat} {child : Node}
    (hchild : s.node.children[index]? = some child) : ⟨some s.node, s.place, index, child⟩ ∈ p.sites := by
  have hmem := Node.mem_sitesAll_of_getElem? (some s.node) s.place 0 hchild
  rw [Nat.zero_add] at hmem
  refine (sites_sublist hs).subset ?_
  rw [Node.sites_eq]
  exact List.mem_cons_of_mem _ hmem

/-- An id of a subtree is the id of one of its sites. -/
theorem exists_site_of_mem_ids {n : Node} {id : String} (parent : Option Node) (above : List Nat)
    (index : Nat) (h : id ∈ n.ids) : ∃ t ∈ n.sites parent above index, t.node.id = id := by
  rw [← Node.map_id_sites parent above index] at h
  exact List.mem_map.mp h

-- ---------------------------------------------------------------------------
-- What a subtree feeds
-- ---------------------------------------------------------------------------

/-- What a node in a subtree feeds is in the subtree as well, unless it is the sibling just after
the node at its top. -/
theorem Feeds.mem_ids (hd : p.ids.Nodup) (hs : s ∈ p.sites) {source reader : String}
    (h : p.Feeds source reader) (hsource : source ∈ s.node.ids) :
    reader ∈ s.node.ids ∨ ∃ t ∈ p.sites, s.parent = some t.node ∧ t.node.parallel = false ∧
      ∃ next, t.node.children[s.index + 1]? = some next ∧ reader = next.id := by
  obtain ⟨t, ht, hid⟩ := exists_site_of_mem_ids s.parent s.above s.index hsource
  have htp := (sites_sublist hs).subset ht
  -- a node feeds its children, and a node of a chain feeds the next one
  cases h with
  | @child u child hu hchild =>
    obtain rfl := site_eq_of_id_eq hd htp hu hid
    refine .inl (Node.ids_subset_of_mem_sites ht ?_)
    exact Node.mem_ids_of_mem_children (Node.ids_subset_of_mem hchild (Node.mem_ids_self child))
  | @next u index child next hu hchain hchild hnext =>
    obtain rfl := site_eq_of_id_eq hd htp (child_mem_sites hu hchild) hid
    rcases Node.parent_of_mem_sites ht with htop | ⟨v, hv, hparent, -⟩
    · obtain rfl : _ = s := htop
      exact .inr ⟨u, hu, rfl, hchain, next, hnext, rfl⟩
    · obtain hnode : u.node = v.node := Option.some.inj hparent
      refine .inl (Node.ids_subset_of_mem_sites hv ?_)
      rw [← hnode]
      exact Node.mem_ids_of_mem_children
        (Node.ids_subset_of_mem (List.mem_of_getElem? hnext) (Node.mem_ids_self next))

/-- What a node feeds depends on whatever the node depends on. -/
theorem Depends.feeds (hd : p.ids.Nodup) {target source reader : String}
    (h : p.Depends target source) (hfeeds : p.Feeds source reader) : p.Depends target reader := by
  obtain ⟨s, hs, rfl, haffects⟩ := h
  refine ⟨s, hs, rfl, ?_⟩
  -- the source is below the node, or in a later sibling of it
  rcases haffects with hsource | ⟨parent, hparent, hchain, hgroup⟩
  · refine (hfeeds.mem_ids hd hs hsource).imp_right ?_
    rintro ⟨t, -, hparent, hchain, next, hnext, rfl⟩
    exact ⟨t.node, hparent, hchain, Node.mem_idsAll_drop_iff.mpr ⟨1, next, hnext, Node.mem_ids_self next⟩⟩
  · -- the source is below the node itself or below one of the siblings after it
    obtain ⟨i, sibling, hsibling, hsource⟩ := Node.mem_idsAll_drop_iff.mp hgroup
    obtain ⟨t, ht, rfl⟩ : ∃ t ∈ p.sites, t.node = parent := by
      rcases parent_of_mem_sites hs with ⟨hroot, -⟩ | ⟨t, ht, htparent, -⟩
      · exact absurd (hroot.symm.trans hparent) (by simp)
      · exact ⟨t, ht, Option.some.inj (htparent.symm.trans hparent)⟩
    refine .inr ⟨t.node, hparent, hchain, Node.mem_idsAll_drop_iff.mpr ?_⟩
    rcases hfeeds.mem_ids hd (child_mem_sites ht hsibling) hsource with
      hreader | ⟨u, -, huparent, -, next, hnext, rfl⟩
    · exact ⟨i, sibling, hsibling, hreader⟩
    · obtain hnode : t.node = u.node := Option.some.inj huparent
      rw [← hnode] at hnext
      exact ⟨i + 1, next, hnext, Node.mem_ids_self next⟩

-- ---------------------------------------------------------------------------
-- What the output of a node leads to
-- ---------------------------------------------------------------------------

open Relation (ReflTransGen)

mutual

/-- The output of a node leads to all of its subtree. -/
theorem leads_below : ∀ {parent : Option Node} {above : List Nat} {index : Nat} {n : Node} {id : String},
    n.sites parent above index ⊆ p.sites → id ∈ n.ids → ReflTransGen p.Feeds n.id id
  | parent, above, index, ⟨nodeId, layer, function, args, parallel, children⟩, id, hsites, hid => by
    rw [Node.ids] at hid
    rw [Node.sites, List.cons_subset] at hsites
    rcases List.mem_cons.mp hid with rfl | hid
    · exact .refl
    · obtain ⟨child, hchild, hleads⟩ := leads_belowAll hsites.2 hid
      exact .head (.child hsites.1 hchild) hleads

/-- Some node of a forest leads to each id in it. -/
theorem leads_belowAll : ∀ {parent : Option Node} {above : List Nat} {index : Nat} {ns : List Node}
    {id : String}, Node.sitesAll parent above index ns ⊆ p.sites → id ∈ Node.idsAll ns →
      ∃ n ∈ ns, ReflTransGen p.Feeds n.id id
  | _, _, _, [], _, _, hid => absurd hid List.not_mem_nil
  | parent, above, index, n :: ns, id, hsites, hid => by
    rw [Node.sitesAll, List.append_subset] at hsites
    rw [Node.idsAll] at hid
    rcases List.mem_append.mp hid with hid | hid
    · exact ⟨n, List.mem_cons_self, leads_below hsites.1 hid⟩
    · obtain ⟨m, hm, hleads⟩ := leads_belowAll hsites.2 hid
      exact ⟨m, List.mem_cons_of_mem _ hm, hleads⟩

end

/-- In a group that runs in order the output of a node leads to all siblings after it. -/
theorem leads_later (hs : s ∈ p.sites) (hchain : s.node.parallel = false) {index i : Nat}
    {child later : Node} (hchild : s.node.children[index]? = some child)
    (hlater : s.node.children[index + i]? = some later) : ReflTransGen p.Feeds child.id later.id := by
  induction i generalizing later with
  | zero =>
    obtain rfl := Option.some.inj (hchild.symm.trans hlater)
    exact .refl
  | succ i ih =>
    have hlt : index + i < s.node.children.length :=
      Nat.lt_of_succ_lt (List.getElem?_eq_some_iff.mp hlater).1
    have hbefore := List.getElem?_eq_getElem hlt
    exact (ih hbefore).tail (.next hs hchain hbefore hlater)

/-- What depends on a node is what its output leads to. -/
theorem depends_iff (hd : p.ids.Nodup) {target id : String} (htarget : target ∈ p.ids) :
    p.Depends target id ↔ ReflTransGen p.Feeds target id := by
  constructor
  · -- what is below a node is fed from it level by level, a later sibling by the ones between
    rintro ⟨s, hs, rfl, haffects⟩
    rcases haffects with hid | ⟨parent, hparent, hchain, hgroup⟩
    · exact leads_below (sites_sublist hs).subset hid
    · obtain ⟨i, later, hlater, hid⟩ := Node.mem_idsAll_drop_iff.mp hgroup
      rcases parent_of_mem_sites hs with ⟨hroot, -⟩ | ⟨t, ht, htparent, -, hchild⟩
      · exact absurd (hroot.symm.trans hparent) (by simp)
      · obtain rfl := Option.some.inj (htparent.symm.trans hparent)
        have hbelow := leads_below (sites_sublist (child_mem_sites ht hlater)).subset hid
        exact (leads_later ht hchain hchild hlater).trans hbelow
  · intro h
    induction h with
    | refl =>
      obtain ⟨s, hs, rfl⟩ := mem_ids_iff.mp htarget
      exact ⟨s, hs, rfl, .inl (Node.mem_ids_self s.node)⟩
    | tail _ hfeeds ih => exact ih.feeds hd hfeeds

/-- The dependents of a site are nodes of the plan, in its order. -/
theorem dependents_sublist (hs : s ∈ p.sites) : s.dependents.Sublist p.ids := by
  unfold Site.dependents
  rcases parent_of_mem_sites hs with ⟨hparent, -⟩ | ⟨t, ht, hparent, -⟩
  · rw [hparent]
    exact ids_sublist hs
  · rw [hparent]
    have hgroup := (Node.idsAll_drop_sublist t.node.children s.index).trans
      (List.sublist_cons_self t.node.id _)
    rw [← Node.ids_eq] at hgroup
    dsimp only
    split
    · exact ids_sublist hs
    · exact hgroup.trans (ids_sublist ht)

/-- **The dependents of a node are all that its output leads to.** In a plan of distinct ids, none of
which is empty, they are listed for the nodes of the plan only, in the order of the plan and each
once. -/
theorem dependents?_closure (hd : p.ids.Nodup) (hempty : "" ∉ p.ids) (target : String) :
    (p.dependents? target = none ↔ target ∉ p.ids) ∧
      ∀ dependents, p.dependents? target = some dependents →
        dependents.Sublist p.ids ∧ dependents.Nodup ∧
          ∀ id, id ∈ dependents ↔ ReflTransGen p.Feeds target id := by
  refine ⟨dependents?_eq_none_iff hd hempty, fun dependents h => ?_⟩
  obtain ⟨s, hs, rfl, rfl⟩ := exists_site_of_dependents? hd hempty h
  have hsublist := dependents_sublist hs
  refine ⟨hsublist, hd.sublist hsublist, fun id => ?_⟩
  rw [mem_dependents? hd hempty h, depends_iff hd (mem_ids_of_mem_sites hs)]

/-- A group that runs in order, with another one below its first node and a group that runs together
below its second. -/
def groupsPlan : Plan :=
  ⟨[⟨"r", "echo", "say", .empty, false, [
    ⟨"a", "echo", "say", .empty, false, [⟨"a1", "echo", "say", .empty, false, []⟩,
      ⟨"a2", "echo", "say", .empty, false, []⟩]⟩,
    ⟨"b", "echo", "say", .empty, true, [⟨"b1", "echo", "say", .empty, false, []⟩,
      ⟨"b2", "echo", "say", .empty, false, []⟩]⟩]⟩]⟩

/-- There the first node of the chain leads to all of it, and one of a group that runs together to
nothing else. -/
theorem dependents?_closure_groups :
    groupsPlan.ids.Nodup ∧ "" ∉ groupsPlan.ids ∧
      (∀ id, ReflTransGen groupsPlan.Feeds "a" id ↔ id ∈ ["a", "a1", "a2", "b", "b1", "b2"]) ∧
      (∀ id, ReflTransGen groupsPlan.Feeds "a1" id ↔ id ∈ ["a1", "a2"]) ∧
      (∀ id, ReflTransGen groupsPlan.Feeds "b1" id ↔ id ∈ ["b1"]) ∧
      groupsPlan.dependents? "c" = none := by
  have hd : groupsPlan.ids.Nodup := by decide
  have hempty : "" ∉ groupsPlan.ids := by decide
  have hlisted := fun target dependents h id =>
    (((dependents?_closure hd hempty target).2 dependents h).2.2 id).symm
  exact ⟨hd, hempty, hlisted "a" _ (by decide), hlisted "a1" _ (by decide), hlisted "b1" _ (by decide),
    (dependents?_closure hd hempty "c").1.mpr (by decide)⟩

end Plan

end PlanRunner
