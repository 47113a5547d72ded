import PlanRunner.Proofs.Plan.Edit

/-!
# PlanRunner — what depends on a node

Whether the outcome of a node may depend on another one can be read off the places of
both: it stands below the other, or below a later sibling of it in a group that runs in
order. `Plan.dependents?` computes these nodes.

* `Site.Affects`, `Plan.Depends` — the relation;
* `Plan.mem_dependents?` — what is computed is the relation;
* `Plan.bare` — a plan without arguments, on which alone the relation depends.
-/

namespace PlanRunner

/-- The outcome of the node with an id may depend on the one at a site: it is below that
node, or below a sibling after it in a group that runs in order. -/
def Site.Affects (s : Site) (id : String) : Prop :=
  id ∈ s.node.ids ∨ ∃ parent, s.parent = some parent ∧ parent.parallel = false ∧
    id ∈ Node.idsAll (parent.children.drop s.index)

/-- The ids of these nodes, in the order of the plan. -/
def Site.dependents (s : Site) : List String :=
  match s.parent with
  | some parent =>
    if parent.parallel then s.node.ids else Node.idsAll (parent.children.drop s.index)
  | none => s.node.ids

/-- The outcome of the node with an id may depend on the one with id `target`. -/
def Plan.Depends (p : Plan) (target id : String) : Prop :=
  ∃ s ∈ p.sites, s.node.id = target ∧ s.Affects id

-- ---------------------------------------------------------------------------
-- Finding a node
-- ---------------------------------------------------------------------------

namespace Node

mutual

/-- What is found by its id stands at a site of the subtree. -/
theorem find?_eq_some : ∀ (parent : Option Node) (above : List Nat) (index : Nat) {target : String}
    {n m : Node}, n.find? target = some m →
      ∃ s ∈ n.sites parent above index, s.node = m ∧ m.id = target
  | parent, above, index, target, ⟨id, layer, function, args, parallel, children⟩, m, h => by
    rw [find?] at h
    rw [sites]
    split at h
    · rename_i hid
      obtain rfl := Option.some.inj h
      exact ⟨_, List.mem_cons_self, rfl, hid⟩
    · obtain ⟨s, hs, hsite⟩ := findAll?_eq_some _ _ _ h
      exact ⟨s, List.mem_cons_of_mem _ hs, hsite⟩

/-- What is found in a forest stands at a site of it. -/
theorem findAll?_eq_some : ∀ (parent : Option Node) (above : List Nat) (index : Nat)
    {target : String} {ns : List Node} {m : Node}, findAll? target ns = some m →
      ∃ s ∈ sitesAll parent above index ns, s.node = m ∧ m.id = target
  | _, _, _, _, [], m, h => by simp [findAll?] at h
  | parent, above, index, target, n :: ns, m, h => by
    rw [findAll?] at h
    rw [sitesAll]
    split at h
    · rename_i found hfound
      obtain rfl := Option.some.inj h
      obtain ⟨s, hs, hsite⟩ := find?_eq_some _ _ _ hfound
      exact ⟨s, List.mem_append_left _ hs, hsite⟩
    · obtain ⟨s, hs, hsite⟩ := findAll?_eq_some _ _ _ h
      exact ⟨s, List.mem_append_right _ hs, hsite⟩

end

mutual

/-- Nothing is found of an id that does not occur. -/
theorem find?_eq_none_iff : ∀ {target : String} {n : Node},
    n.find? target = none ↔ target ∉ n.ids
  | target, ⟨id, layer, function, args, parallel, children⟩ => by
    rw [find?, ids, List.mem_cons, not_or]
    by_cases hid : id = target
    · simp [hid]
    · rw [if_neg hid, findAll?_eq_none_iff]
      simp [Ne.symm hid]

/-- Nothing is found in a forest in which the id does not occur. -/
theorem findAll?_eq_none_iff : ∀ {target : String} {ns : List Node},
    findAll? target ns = none ↔ target ∉ idsAll ns
  | target, [] => by simp [findAll?, idsAll]
  | target, n :: ns => by
    rw [findAll?, idsAll, List.mem_append, not_or, ← find?_eq_none_iff, ← findAll?_eq_none_iff]
    cases n.find? target <;> simp

end

/-- An id that occurs nowhere is that of no node, and it does not occur below any. -/
theorem notMem_idsAll_iff {ns : List Node} {id : String} :
    id ∉ idsAll ns ↔ position? id ns = none ∧ ∀ n ∈ ns, id ∉ idsAll n.children := by
  have hcases : ∀ n : Node, id ∉ n.ids ↔ n.id ≠ id ∧ id ∉ idsAll n.children := fun n => by
    rw [ids_eq, List.mem_cons, not_or, ne_comm]
  have hposition : position? id ns = none ↔ ∀ n ∈ ns, n.id ≠ id := by
    simp [position?, List.findIdx?_eq_none_iff]
  rw [mem_idsAll_iff, hposition]
  simp only [not_exists, not_and, hcases]
  exact forall₂_and

mutual

/-- Nothing is located of an id that does not occur below the node. -/
theorem locate?_eq_none_iff : ∀ {target : String} {n : Node},
    n.locate? target = none ↔ target ∉ idsAll n.children
  | target, ⟨id, layer, function, args, parallel, children⟩ => by
    rw [locate?, notMem_idsAll_iff, ← locateAll?_eq_none_iff]
    cases position? target children <;> simp

/-- Nothing is located of an id that occurs below none of the nodes. -/
theorem locateAll?_eq_none_iff : ∀ {target : String} {ns : List Node},
    locateAll? target ns = none ↔ ∀ n ∈ ns, target ∉ idsAll n.children
  | target, [] => by simp [locateAll?]
  | target, n :: ns => by
    rw [locateAll?, List.forall_mem_cons, ← locate?_eq_none_iff, ← locateAll?_eq_none_iff]
    cases n.locate? target <;> simp

end

end Node

namespace Plan

variable {p : Plan}

/-- An id has a location in the plan exactly when it occurs in it. -/
theorem location?_eq_none_iff {id : String} : p.location? id = none ↔ id ∉ p.ids := by
  rw [location?, ids, Node.notMem_idsAll_iff, ← Node.locateAll?_eq_none_iff]
  cases Node.position? id p.roots <;> simp

/-- An id is found in the plan exactly when it occurs in it. -/
theorem find?_eq_none_iff {id : String} : p.find? id = none ↔ id ∉ p.ids :=
  Node.findAll?_eq_none_iff

/-- What is found in the plan stands at one of its sites. -/
theorem exists_site_of_find? {id : String} {n : Node} (h : p.find? id = some n) :
    ∃ s ∈ p.sites, s.node = n ∧ n.id = id :=
  Node.findAll?_eq_some none [] 0 h

/-- In a plan of distinct ids a node is found by its id. -/
theorem find?_of_mem_sites (hd : p.ids.Nodup) {s : Site} (hs : s ∈ p.sites) :
    p.find? s.node.id = some s.node := by
  cases hfind : p.find? s.node.id with
  | none => exact absurd (mem_ids_of_mem_sites hs) (find?_eq_none_iff.mp hfind)
  | some m =>
    obtain ⟨t, ht, rfl, hid⟩ := exists_site_of_find? hfind
    rw [site_eq_of_id_eq hd ht hs hid]

/-- In a plan of distinct ids a node is located where it stands. -/
theorem location?_of_mem_sites (hd : p.ids.Nodup) {s : Site} (hs : s ∈ p.sites) :
    p.location? s.node.id = some (s.parentId, s.index) := by
  cases hlocation : p.location? s.node.id with
  | none => exact absurd (mem_ids_of_mem_sites hs) (location?_eq_none_iff.mp hlocation)
  | some place =>
    obtain ⟨t, ht, hid, hparent, hindex⟩ := location?_eq_some hlocation
    rw [site_eq_of_id_eq hd hs ht hid.symm, hparent, hindex]

-- ---------------------------------------------------------------------------
-- The relation is what is computed
-- ---------------------------------------------------------------------------

/-- A node stands among the children of its parent from its index on. -/
theorem mem_idsAll_drop {s : Site} {parent : Node} (h : parent.children[s.index]? = some s.node)
    {id : String} (hid : id ∈ s.node.ids) : id ∈ Node.idsAll (parent.children.drop s.index) := by
  obtain ⟨hlt, hnode⟩ := List.getElem?_eq_some_iff.mp h
  rw [List.drop_eq_getElem_cons hlt, hnode, Node.idsAll]
  exact List.mem_append_left _ hid

/-- The dependents of a site are the nodes it affects. -/
theorem mem_dependents_iff {s : Site} (hs : s ∈ p.sites) {id : String} :
    id ∈ s.dependents ↔ s.Affects id := by
  unfold Site.dependents Site.Affects
  rcases parent_of_mem_sites hs with ⟨hparent, -⟩ | ⟨t, -, hparent, -, hchild⟩
  · simp [hparent]
  · cases hparallel : t.node.parallel with
    | true => simp [hparent, hparallel]
    | false =>
      -- in a group that runs in order the node is one of those from its index on
      simp only [hparent, hparallel, Bool.false_eq_true, if_false, Option.some.injEq,
        exists_eq_left', true_and]
      exact ⟨.inr, fun hid => hid.elim (mem_idsAll_drop hchild) fun h => h⟩

/-- The parent of a node is looked up by its id. No node may have the empty id, which stands for the
parent of a root. -/
theorem dependents?_of_mem_sites (hd : p.ids.Nodup) (hempty : "" ∉ p.ids) {s : Site}
    (hs : s ∈ p.sites) : p.dependents? s.node.id = some s.dependents := by
  -- the parent is looked up by its id, and the empty id of no parent finds nothing
  have hparent : p.find? s.parentId = s.parent := by
    rw [Site.parentId]
    rcases parent_of_mem_sites hs with ⟨hparent, -⟩ | ⟨t, ht, hparent, -⟩
    · rw [hparent]
      exact find?_eq_none_iff.mpr hempty
    · rw [hparent]
      exact find?_of_mem_sites hd ht
  unfold dependents? Site.dependents
  rw [location?_of_mem_sites hd hs]
  simp only [hparent, find?_of_mem_sites hd hs, Option.map_some]
  cases s.parent with
  | none => rfl
  | some parent => exact (apply_ite some _ _ _).symm

/-- A plan knows the dependents of its own nodes, and of no others. -/
theorem dependents?_eq_none_iff (hd : p.ids.Nodup) (hempty : "" ∉ p.ids) {target : String} :
    p.dependents? target = none ↔ target ∉ p.ids := by
  constructor
  · intro h hmem
    obtain ⟨s, hs, rfl⟩ := mem_ids_iff.mp hmem
    exact absurd ((dependents?_of_mem_sites hd hempty hs).symm.trans h) (by simp)
  · intro h
    simp only [dependents?, location?_eq_none_iff.mpr h]

/-- What is computed for an id is what depends on the node at the site with the id. -/
theorem exists_site_of_dependents? (hd : p.ids.Nodup) (hempty : "" ∉ p.ids) {target : String}
    {dependents : List String} (h : p.dependents? target = some dependents) :
    ∃ s ∈ p.sites, s.node.id = target ∧ s.dependents = dependents := by
  have hmem : target ∈ p.ids := by
    by_contra hmem
    exact absurd (h.symm.trans ((dependents?_eq_none_iff hd hempty).mpr hmem)) (by simp)
  obtain ⟨s, hs, rfl⟩ := mem_ids_iff.mp hmem
  exact ⟨s, hs, rfl, Option.some.inj ((dependents?_of_mem_sites hd hempty hs).symm.trans h)⟩

/-- What is computed is the relation. -/
theorem mem_dependents? (hd : p.ids.Nodup) (hempty : "" ∉ p.ids) {target : String}
    {dependents : List String} (h : p.dependents? target = some dependents) {id : String} :
    id ∈ dependents ↔ p.Depends target id := by
  obtain ⟨s, hs, rfl, rfl⟩ := exists_site_of_dependents? hd hempty h
  rw [mem_dependents_iff hs]
  refine ⟨fun haffects => ⟨s, hs, rfl, haffects⟩, ?_⟩
  -- there is one site with the id, so it decides what depends on the id
  rintro ⟨t, ht, htid, haffects⟩
  rwa [site_eq_of_id_eq hd ht hs htid] at haffects

end Plan

-- ---------------------------------------------------------------------------
-- What an edit leaves in the plan
-- ---------------------------------------------------------------------------

namespace Node

variable {target id : String} {change : Node → Node}

mutual

/-- An id that the edit does not affect is still there after it. -/
theorem mem_ids_edit : ∀ {parent : Option Node} {above : List Nat} {index : Nat} {n : Node},
    (∀ s ∈ n.sites parent above index, s.node.id = target → ¬ s.Affects id) → id ∈ n.ids →
      id ∈ (n.edit target change).ids
  | parent, above, index, ⟨nodeId, layer, function, args, parallel, children⟩, hfar, hid => by
    rw [sites, List.forall_mem_cons] at hfar
    rw [edit]
    split
    · rename_i htarget
      exact absurd (.inl hid) (hfar.1 htarget)
    · rw [ids] at hid ⊢
      rcases List.mem_cons.mp hid with rfl | hid
      · exact List.mem_cons_self
      · exact List.mem_cons_of_mem _ (mem_idsAll_editAll hfar.2 hid)

/-- So it is in a forest. -/
theorem mem_idsAll_editAll : ∀ {parent : Option Node} {above : List Nat} {index : Nat}
    {ns : List Node}, (∀ s ∈ sitesAll parent above index ns, s.node.id = target → ¬ s.Affects id) →
      id ∈ idsAll ns → id ∈ idsAll (editAll target change ns)
  | _, _, _, [], _, hid => hid
  | parent, above, index, n :: ns, hfar, hid => by
    rw [sitesAll, List.forall_mem_append] at hfar
    rw [idsAll] at hid
    rw [editAll, idsAll]
    rcases List.mem_append.mp hid with hid | hid
    · exact List.mem_append_left _ (mem_ids_edit hfar.1 hid)
    · exact List.mem_append_right _ (mem_idsAll_editAll hfar.2 hid)

end

end Node

/-- A node that does not depend on the edited one stays in the plan. -/
theorem Plan.mem_ids_edit {p : Plan} {target id : String} {change : Node → Node}
    (hfar : ¬ p.Depends target id) (hid : id ∈ p.ids) : id ∈ (p.edit target change).ids :=
  @Node.mem_idsAll_editAll target id change none [] 0 p.roots
    (fun s hs htarget haffects => hfar ⟨s, hs, htarget, haffects⟩) hid

-- ---------------------------------------------------------------------------
-- Plans without arguments
-- ---------------------------------------------------------------------------

namespace Node

mutual

/-- A subtree with all arguments left out. -/
def bare : Node → Node
  | ⟨id, layer, function, _, parallel, children⟩ =>
    ⟨id, layer, function, .empty, parallel, bareAll children⟩

def bareAll : List Node → List Node
  | [] => []
  | n :: ns => n.bare :: bareAll ns

end

@[simp] theorem bare_id (n : Node) : n.bare.id = n.id := by
  cases n; rfl

@[simp] theorem bare_parallel (n : Node) : n.bare.parallel = n.parallel := by
  cases n; rfl

@[simp] theorem bare_children (n : Node) : n.bare.children = bareAll n.children := by
  cases n; rfl

/-- Stripping a forest of its arguments strips its nodes. -/
theorem bareAll_eq_map (ns : List Node) : bareAll ns = ns.map bare := by
  induction ns with
  | nil => rfl
  | cons n ns ih => rw [bareAll, List.map_cons, ih]

mutual

@[simp] theorem ids_bare : ∀ n : Node, n.bare.ids = n.ids
  | ⟨id, layer, function, args, parallel, children⟩ => by
    rw [bare, ids, ids, idsAll_bare children]

@[simp] theorem idsAll_bare : ∀ ns : List Node, idsAll (bareAll ns) = idsAll ns
  | [] => rfl
  | n :: ns => by rw [bareAll, idsAll, idsAll, ids_bare n, idsAll_bare ns]

end

mutual

/-- A stripped node is found where the node is. -/
theorem find?_bare (target : String) : ∀ n : Node, n.bare.find? target = (n.find? target).map bare
  | ⟨id, layer, function, args, parallel, children⟩ => by
    rw [bare, find?, find?, findAll?_bare target children]
    split
    · rw [Option.map_some, bare]
    · rfl

/-- A stripped node is found in a stripped forest where the node is. -/
theorem findAll?_bare (target : String) : ∀ ns : List Node,
    findAll? target (bareAll ns) = (findAll? target ns).map bare
  | [] => rfl
  | n :: ns => by
    rw [bareAll, findAll?, findAll?, find?_bare target n, findAll?_bare target ns]
    cases n.find? target <;> rfl

end

/-- Stripping moves no node. -/
theorem position?_bare (target : String) (ns : List Node) :
    position? target (bareAll ns) = position? target ns := by
  unfold position?
  rw [bareAll_eq_map, List.findIdx?_map]
  congr 1
  funext n
  simp

mutual

theorem locate?_bare (target : String) : ∀ n : Node, n.bare.locate? target = n.locate? target
  | ⟨id, layer, function, args, parallel, children⟩ => by
    rw [bare, locate?, locate?, position?_bare, locateAll?_bare target children]

theorem locateAll?_bare (target : String) : ∀ ns : List Node,
    locateAll? target (bareAll ns) = locateAll? target ns
  | [] => rfl
  | n :: ns => by
    rw [bareAll, locateAll?, locateAll?, locate?_bare target n, locateAll?_bare target ns]

end

mutual

/-- A change of arguments cannot be seen without arguments. -/
theorem bare_edit {target : String} {change : Node → Node} (h : ∀ n, (change n).bare = n.bare) :
    ∀ n : Node, (n.edit target change).bare = n.bare
  | ⟨id, layer, function, args, parallel, children⟩ => by
    rw [edit]
    split
    · exact h _
    · rw [bare, bare, bareAll_editAll h children]

/-- An edit that changes arguments only is not seen in the stripped forest. -/
theorem bareAll_editAll {target : String} {change : Node → Node} (h : ∀ n, (change n).bare = n.bare) :
    ∀ ns : List Node, bareAll (editAll target change ns) = bareAll ns
  | [] => rfl
  | n :: ns => by rw [editAll, bareAll, bareAll, bare_edit h n, bareAll_editAll h ns]

end

end Node

namespace Plan

/-- A plan with all arguments left out. -/
def bare (p : Plan) : Plan := ⟨Node.bareAll p.roots⟩

theorem ids_bare (p : Plan) : p.bare.ids = p.ids := Node.idsAll_bare p.roots

/-- What depends on a node does not depend on arguments. -/
theorem dependents?_bare (p : Plan) (target : String) :
    p.bare.dependents? target = p.dependents? target := by
  have hlocation : p.bare.location? target = p.location? target := by
    unfold Plan.location?
    rw [bare, Node.position?_bare, Node.locateAll?_bare]
  -- location, parent and ids are the same without the arguments
  have hfind : ∀ id, p.bare.find? id = (p.find? id).map Node.bare := fun id =>
    Node.findAll?_bare id p.roots
  unfold Plan.dependents?
  rw [hlocation]
  cases p.location? target with
  | none => rfl
  | some place =>
    obtain ⟨parentId, index⟩ := place
    simp only [hfind, Option.map_map]
    have hids : Node.ids ∘ Node.bare = Node.ids := funext Node.ids_bare
    cases p.find? parentId with
    | none => simp only [Option.map_none, hids]
    | some parent =>
      simp only [Option.map_some, Node.bare_parallel, Node.bare_children, hids]
      rw [Node.bareAll_eq_map, ← List.map_drop, ← Node.bareAll_eq_map, Node.idsAll_bare]

/-- New arguments are not seen in the stripped plan. -/
theorem bare_withArgs? {p q : Plan} {id : String} {args : Value} (h : p.withArgs? id args = some q) :
    q.bare = p.bare := by
  unfold Plan.withArgs? at h
  split at h
  · obtain rfl := Option.some.inj h
    rw [bare, bare, edit, Node.bareAll_editAll fun n => by cases n; rfl]
  · exact absurd h (by simp)

end Plan

end PlanRunner
