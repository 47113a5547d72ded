import PlanRunner.Plan.Builder
import PlanRunner.Proofs.Plan.Position

/-!
# PlanRunner — edits keep ids at their positions

A plan that is built has its ids from positions, and an edit puts new nodes only where
the edited node stood. The one thing that can go wrong is an id that two nodes share: a
replacement is built for the place of the first and put in place of both.

* `Plan.Placed.ofJson` — a plan that is built has its ids from positions;
* `Plan.location?_eq_some` — the location of an id is that of a node with the id;
* `Edit.run?`, `Plan.Edited` — accepted edits, one and any number;
* `Plan.Edited.ids_from_positions` — what any number of edits leaves.
-/

namespace PlanRunner

namespace Node

-- ---------------------------------------------------------------------------
-- The places of a subtree
-- ---------------------------------------------------------------------------

mutual

/-- A subtree with the ids of the place with this parent and index. -/
def Placed (parentId : String) (index : Nat) : Node → Prop
  | ⟨id, layer, function, _, _, children⟩ =>
    id = Plan.nodeId parentId layer function index ∧ PlacedAll id 0 children

def PlacedAll (parentId : String) (index : Nat) : List Node → Prop
  | [] => True
  | n :: ns => n.Placed parentId index ∧ PlacedAll parentId (index + 1) ns

end

/-- A node is placed when its id is derived from its position and its children are placed below it.
-/
theorem placed_iff {parentId : String} {index : Nat} {n : Node} :
    n.Placed parentId index ↔
      n.id = Plan.nodeId parentId n.layer n.function index ∧ PlacedAll n.id 0 n.children := by
  cases n
  rw [Placed]

/-- The id of a possible parent, empty if there is none. -/
def parentId (parent : Option Node) : String := (parent.map Node.id).getD ""

mutual

/-- A subtree is placed when the id of every site in it is derived from the site. -/
theorem placed_iff_sites : ∀ {parent : Option Node} {above : List Nat} {index : Nat} {n : Node},
    n.Placed (parentId parent) index ↔ ∀ s ∈ n.sites parent above index, s.Derived
  | parent, above, index, ⟨id, layer, function, args, parallel, children⟩ => by
    rw [Placed, sites, List.forall_mem_cons, ← placedAll_iff_sites]
    exact Iff.rfl

/-- A forest is placed when the id of every site in it is derived from the site. -/
theorem placedAll_iff_sites : ∀ {parent : Option Node} {above : List Nat} {index : Nat}
    {ns : List Node},
    PlacedAll (parentId parent) index ns ↔ ∀ s ∈ sitesAll parent above index ns, s.Derived
  | _, _, _, [] => by simp [PlacedAll, sitesAll]
  | parent, above, index, n :: ns => by
    rw [PlacedAll, sitesAll, List.forall_mem_append, placed_iff_sites, placedAll_iff_sites]

end

/-- Every node of placed subtrees is placed where it stands. -/
theorem PlacedAll.of_mem_sites {parent : Option Node} {above : List Nat} {index : Nat}
    {ns : List Node} {s : Site} (h : PlacedAll (parentId parent) index ns)
    (hs : s ∈ sitesAll parent above index ns) : s.node.Placed s.parentId s.index := by
  have hsites := (@placedAll_iff_sites parent above index ns).mp h
  exact (@placed_iff_sites s.parent s.above s.index s.node).mpr fun t ht =>
    hsites t ((sites_sublist_of_mem_sitesAll hs).subset ht)

-- ---------------------------------------------------------------------------
-- Building
-- ---------------------------------------------------------------------------

end Node

namespace Plan

/-- A node is given the id that is derived from where it stands. -/
theorem nodeHead_eq_ok {fields : List (String × Json)} {parentId : String} {index : Nat} {n : Node}
    (h : nodeHead fields parentId index = .ok n) :
    n.id = nodeId parentId n.layer n.function index := by
  unfold nodeHead at h
  split at h
  · exact absurd h (by simp)
  · split at h
    · exact absurd h (by simp)
    · split at h
      · exact absurd h (by simp)
      · obtain rfl := Except.ok.inj h
        rfl

mutual

/-- A node that is built has the ids of the place it is built for. -/
theorem placed_of_buildNode : ∀ {json : Json} {parentId : String} {index : Nat} {n : Node},
    buildNode json parentId index = .ok n → n.Placed parentId index
  | .obj fields, parentId, index, n, h => by
    rw [buildNode] at h
    split at h
    · exact absurd h (by simp)
    · rename_i head hhead
      split at h
      · exact absurd h (by simp)
      · rename_i children hchildren
        obtain rfl := Except.ok.inj h
        have hid := nodeHead_eq_ok hhead
        exact Node.placed_iff.mpr ⟨hid, placedAll_of_childrenAmong hchildren⟩
  | .null, _, _, _, h => by simp [buildNode] at h
  | .bool _, _, _, _, h => by simp [buildNode] at h
  | .int _, _, _, _, h => by simp [buildNode] at h
  | .float _, _, _, _, h => by simp [buildNode] at h
  | .str _, _, _, _, h => by simp [buildNode] at h
  | .arr _, _, _, _, h => by simp [buildNode] at h

/-- The children that are built from the fields of a node are placed below it. -/
theorem placedAll_of_childrenAmong : ∀ {fields : List (String × Json)} {parentId : String}
    {ns : List Node}, childrenAmong fields parentId = .ok ns → Node.PlacedAll parentId 0 ns
  | [], parentId, ns, h => by
    rw [childrenAmong] at h
    obtain rfl := Except.ok.inj h
    trivial
  | (k, v) :: fields, parentId, ns, h => by
    rw [childrenAmong] at h
    split at h
    · exact placedAll_of_buildChildren h
    · exact placedAll_of_childrenAmong h

/-- The children that are built from a list are placed one after the other. -/
theorem placedAll_of_buildChildren : ∀ {json : Json} {parentId : String} {ns : List Node},
    buildChildren json parentId = .ok ns → Node.PlacedAll parentId 0 ns
  | .null, parentId, ns, h => by
    rw [buildChildren] at h
    obtain rfl := Except.ok.inj h
    trivial
  | .arr items, parentId, ns, h => by
    rw [buildChildren] at h
    exact placedAll_of_buildNodes h
  | .bool _, _, _, h => by simp [buildChildren] at h
  | .int _, _, _, h => by simp [buildChildren] at h
  | .float _, _, _, h => by simp [buildChildren] at h
  | .str _, _, _, h => by simp [buildChildren] at h
  | .obj _, _, _, h => by simp [buildChildren] at h

/-- The nodes that are built from some items are placed one after the other. -/
theorem placedAll_of_buildNodes : ∀ {items : List Json} {parentId : String} {index : Nat}
    {ns : List Node}, buildNodes items parentId index = .ok ns → Node.PlacedAll parentId index ns
  | [], parentId, index, ns, h => by
    rw [buildNodes] at h
    obtain rfl := Except.ok.inj h
    trivial
  | json :: rest, parentId, index, ns, h => by
    rw [buildNodes] at h
    split at h
    · exact absurd h (by simp)
    · rename_i node hnode
      split at h
      · exact absurd h (by simp)
      · rename_i nodes hnodes
        obtain rfl := Except.ok.inj h
        exact ⟨placed_of_buildNode hnode, placedAll_of_buildNodes hnodes⟩

end

/-- A subtree that is built for a position is placed there. -/
theorem placed_of_subtreeOfJson {json : Json} {parentId : String} {index : Nat} {n : Node}
    (h : subtreeOfJson json parentId index = .ok n) : n.Placed parentId index := by
  unfold subtreeOfJson at h
  split at h
  · exact placed_of_buildNode h
  · exact placed_of_buildNode h

theorem placed_iff {p : Plan} : p.Placed ↔ Node.PlacedAll "" 0 p.roots :=
  (@Node.placedAll_iff_sites none [] 0 p.roots).symm

/-- When no id is found a second time, none occurs twice. -/
theorem nodup_of_firstRepeated? {seen ids : List String} (h : firstRepeated? seen ids = none) :
    ids.Nodup ∧ ∀ id ∈ ids, id ∉ seen := by
  -- induction on the ids; those that were seen are none of the later ones
  induction ids generalizing seen with
  | nil => simp
  | cons id ids ih =>
    unfold firstRepeated? at h
    split at h
    · exact absurd h (by simp)
    · rename_i hseen
      obtain ⟨hd, hfresh⟩ := ih h
      rw [List.contains_eq_mem, decide_eq_true_eq] at hseen
      refine ⟨List.nodup_cons.mpr ⟨fun hmem => hfresh id hmem List.mem_cons_self, hd⟩, ?_⟩
      intro x hx
      rcases List.mem_cons.mp hx with rfl | hx
      · exact hseen
      · exact fun hmem => hfresh x hx (List.mem_cons_of_mem _ hmem)

/-- A plan that is built has its ids from positions, and they are distinct. -/
theorem Placed.ofJson {json : Json} {p : Plan} (h : Plan.ofJson json = .ok p) :
    p.Placed ∧ p.ids.Nodup := by
  unfold Plan.ofJson at h
  -- each test is passed, the last of which is about ids that repeat
  split at h
  · exact absurd h (by simp)
  · exact absurd h (by simp)
  · split at h
    · exact absurd h (by simp)
    · rename_i roots hroots
      simp only at h
      split at h
      · exact absurd h (by simp)
      · rename_i hnew
        obtain rfl := Except.ok.inj h
        exact ⟨placed_iff.mpr (placedAll_of_buildNodes hroots), (nodup_of_firstRepeated? hnew).1⟩

end Plan

-- ---------------------------------------------------------------------------
-- Locations
-- ---------------------------------------------------------------------------

namespace Node

/-- The nodes of a forest are its topmost sites, counted from where the forest starts. -/
theorem mem_sitesAll_of_getElem? (parent : Option Node) (above : List Nat) (start : Nat)
    {index : Nat} {ns : List Node} {n : Node} (h : ns[index]? = some n) :
    ⟨parent, above, start + index, n⟩ ∈ sitesAll parent above start ns := by
  induction ns generalizing start index with
  | nil => simp at h
  | cons m ms ih =>
    rw [sitesAll]
    cases index with
    | zero =>
      obtain rfl := Option.some.inj h
      rw [sites_eq]
      exact List.mem_append_left _ List.mem_cons_self
    | succ index =>
      have hmem := ih (start + 1) h
      rw [Nat.add_right_comm] at hmem
      exact List.mem_append_right _ hmem

/-- A position that is found is that of a node with the id. -/
theorem position?_eq_some {target : String} {ns : List Node} {index : Nat}
    (h : position? target ns = some index) : ∃ n, ns[index]? = some n ∧ n.id = target := by
  obtain ⟨hlt, hid, -⟩ := List.findIdx?_eq_some_iff_getElem.mp h
  exact ⟨ns[index], List.getElem?_eq_getElem hlt, by simpa using hid⟩

mutual

/-- A location that is found below a node is that of a site with the id. -/
theorem locate?_eq_some : ∀ (parent : Option Node) (above : List Nat) (start : Nat)
    {target : String} {n : Node} {place : String × Nat}, n.locate? target = some place →
      ∃ s ∈ n.sites parent above start, s.node.id = target ∧ (s.parentId, s.index) = place
  | parent, above, start, target, ⟨id, layer, function, args, parallel, children⟩, place, h => by
    rw [locate?] at h
    rw [sites]
    split at h
    · rename_i index hposition
      obtain ⟨n, hn, hid⟩ := position?_eq_some hposition
      obtain rfl := Option.some.inj h
      refine ⟨_, List.mem_cons_of_mem _ (mem_sitesAll_of_getElem? _ _ _ hn), hid, ?_⟩
      rw [Nat.zero_add]
      rfl
    · obtain ⟨s, hs, hsite⟩ := locateAll?_eq_some _ _ _ h
      exact ⟨s, List.mem_cons_of_mem _ hs, hsite⟩

/-- A location that is found below some nodes is that of a site with the id. -/
theorem locateAll?_eq_some : ∀ (parent : Option Node) (above : List Nat) (start : Nat)
    {target : String} {ns : List Node} {place : String × Nat},
    locateAll? target ns = some place →
      ∃ s ∈ sitesAll parent above start ns, s.node.id = target ∧ (s.parentId, s.index) = place
  | _, _, _, _, [], place, h => by simp [locateAll?] at h
  | parent, above, start, target, n :: ns, place, h => by
    rw [locateAll?] at h
    rw [sitesAll]
    split at h
    · rename_i found hfound
      obtain rfl := Option.some.inj h
      obtain ⟨s, hs, hsite⟩ := locate?_eq_some _ _ _ hfound
      exact ⟨s, List.mem_append_left _ hs, hsite⟩
    · obtain ⟨s, hs, hsite⟩ := locateAll?_eq_some _ _ _ h
      exact ⟨s, List.mem_append_right _ hs, hsite⟩

end

end Node

/-- A location that is found in the plan is that of a site with the id. -/
theorem Plan.location?_eq_some {p : Plan} {id parentId : String} {index : Nat}
    (h : p.location? id = some (parentId, index)) :
    ∃ s ∈ p.sites, s.node.id = id ∧ s.parentId = parentId ∧ s.index = index := by
  unfold Plan.location? at h
  split at h
  · rename_i i hposition
    obtain ⟨n, hn, hid⟩ := Node.position?_eq_some hposition
    obtain ⟨rfl, rfl⟩ := Prod.mk.inj (Option.some.inj h)
    have hmem := Node.mem_sitesAll_of_getElem? none [] 0 hn
    rw [Nat.zero_add] at hmem
    exact ⟨_, hmem, hid, rfl, rfl⟩
  · obtain ⟨s, hs, hid, hplace⟩ := Node.locateAll?_eq_some none [] 0 h
    obtain ⟨rfl, rfl⟩ := Prod.mk.inj hplace
    exact ⟨s, hs, hid, rfl, rfl⟩

-- ---------------------------------------------------------------------------
-- One edit
-- ---------------------------------------------------------------------------

namespace Node

variable {target : String} {change : Node → Node}

mutual

/-- A change that fits every place where it happens keeps a subtree in its place. -/
theorem Placed.edit : ∀ {parent : Option Node} {above : List Nat} {index : Nat} {n : Node},
    n.Placed (parentId parent) index →
    (∀ s ∈ n.sites parent above index, s.node.id = target →
      (change s.node).Placed s.parentId s.index) →
    (n.edit target change).Placed (parentId parent) index
  | parent, above, index, ⟨id, layer, function, args, parallel, children⟩, h, hchange => by
    rw [Node.edit]
    rw [sites, List.forall_mem_cons] at hchange
    split
    · rename_i hid
      exact hchange.1 hid
    · -- an edit stops at the topmost node with the id, so the children are edited here only
      rw [Placed] at h ⊢
      have hbelow : PlacedAll (parentId (some ⟨id, layer, function, args, parallel, children⟩)) 0
        children := h.2
      exact ⟨h.1, hbelow.edit hchange.2⟩

/-- So it is for a forest. -/
theorem PlacedAll.edit : ∀ {parent : Option Node} {above : List Nat} {index : Nat}
    {ns : List Node}, PlacedAll (parentId parent) index ns →
    (∀ s ∈ sitesAll parent above index ns, s.node.id = target →
      (change s.node).Placed s.parentId s.index) →
    PlacedAll (parentId parent) index (editAll target change ns)
  | _, _, _, [], _, _ => trivial
  | parent, above, index, n :: ns, h, hchange => by
    rw [editAll, PlacedAll]
    rw [PlacedAll] at h
    rw [sitesAll, List.forall_mem_append] at hchange
    exact ⟨h.1.edit hchange.1, h.2.edit hchange.2⟩

end

end Node

namespace Plan

variable {p q : Plan}

/-- Giving arguments edits the node with the id. -/
theorem withArgs?_eq_some {id : String} {args : Value} (h : p.withArgs? id args = some q) :
    q = p.edit id fun n => { n with args := args } := by
  unfold Plan.withArgs? at h
  split at h
  · exact (Option.some.inj h).symm
  · exact absurd h (by simp)

/-- Replacing a node edits the node with the id. -/
theorem replace?_eq_some {id : String} {replacement : Node} (h : p.replace? id replacement = some q) :
    q = p.edit id fun _ => replacement := by
  unfold Plan.replace? at h
  split at h
  · exact (Option.some.inj h).symm
  · exact absurd h (by simp)

/-- An edit of a placed plan leaves it placed, if what it puts there is placed there. -/
theorem Placed.edit (hp : p.Placed) {target : String} {change : Node → Node}
    (hchange : ∀ s ∈ p.sites, s.node.id = target → (change s.node).Placed s.parentId s.index) :
    (p.edit target change).Placed :=
  placed_iff.mpr (@Node.PlacedAll.edit _ _ none [] 0 p.roots (placed_iff.mp hp) hchange)

/-- New arguments leave every id as it is. -/
theorem Placed.withArgs? (hp : p.Placed) {id : String} {args : Value}
    (h : p.withArgs? id args = some q) : q.Placed := by
  rw [withArgs?_eq_some h]
  refine hp.edit fun s hs _ => ?_
  -- `Placed` does not look at arguments
  have hplaced : s.node.Placed s.parentId s.index :=
    @Node.PlacedAll.of_mem_sites none [] 0 p.roots s (placed_iff.mp hp) hs
  obtain ⟨hid, hbelow⟩ := Node.placed_iff.mp hplaced
  exact Node.placed_iff.mpr ⟨hid, hbelow⟩

/-- An id that belongs to one node belongs to one place. -/
theorem site_eq_of_count {id : String} (hone : p.ids.count id ≤ 1) {s t : Site} (hs : s ∈ p.sites)
    (ht : t ∈ p.sites) (hsid : s.node.id = id) (htid : t.node.id = id) : s = t := by
  rw [← map_id_sites, List.count, List.countP_map, List.countP_eq_length_filter] at hone
  -- the sites with the id are a list of one element, and both are in it
  have hmem : ∀ {u : Site}, u ∈ p.sites → u.node.id = id →
      u ∈ p.sites.filter ((fun x => x == id) ∘ fun u => u.node.id) := by
    intro u hu huid
    simp [hu, huid]
  obtain ⟨a, ha⟩ : ∃ a, p.sites.filter ((fun x => x == id) ∘ fun u => u.node.id) = [a] :=
    List.length_eq_one_iff.mp (Nat.le_antisymm hone (List.length_pos_of_mem (hmem hs hsid)))
  have hs' := hmem hs hsid
  have ht' := hmem ht htid
  rw [ha, List.mem_singleton] at hs' ht'
  rw [hs', ht']

/-- A replacement built for the place of the only node with an id keeps every node in its
place. -/
theorem Placed.replace? (hp : p.Placed) {id parentId : String} {index : Nat} {replacement : Node}
    (hone : p.ids.count id ≤ 1) (hlocation : p.location? id = some (parentId, index))
    (hreplacement : replacement.Placed parentId index) (h : p.replace? id replacement = some q) :
    q.Placed := by
  rw [replace?_eq_some h]
  -- the replacement was built for the site that was found, and there is no other
  obtain ⟨t, ht, htid, rfl, rfl⟩ := location?_eq_some hlocation
  refine hp.edit fun s hs hsid => ?_
  rwa [site_eq_of_count hone hs ht hsid htid]

end Plan

-- ---------------------------------------------------------------------------
-- Any number of edits
-- ---------------------------------------------------------------------------

/-- An edit of a plan between two attempts. -/
inductive Edit where
  /-- A subtree, given as JSON, comes in place of a node. -/
  | replan (id : String) (subtree : Json)
  /-- A node gets new arguments. -/
  | withArgs (id : String) (args : Value)

namespace Edit

/-- The plan after an edit, if it is accepted. A subtree is built for the location of the
node that it replaces. -/
def run? (p : Plan) : Edit → Option Plan
  | .replan id subtree =>
    match p.location? id with
    | none => none
    | some (parentId, index) =>
      match Plan.subtreeOfJson subtree parentId index with
      | .error _ => none
      | .ok replacement => p.replace? id replacement
  | .withArgs id args => p.withArgs? id args

/-- A replan builds its subtree for the location of the node and replaces the node with it. -/
theorem run?_replan_eq_some {p q : Plan} {id : String} {subtree : Json} :
    (replan id subtree).run? p = some q ↔
      ∃ parentId index replacement, p.location? id = some (parentId, index) ∧
        Plan.subtreeOfJson subtree parentId index = .ok replacement ∧
        p.replace? id replacement = some q := by
  simp only [run?]
  -- each test that the replan makes is one of the facts on the other side
  constructor
  · intro h
    split at h
    · exact absurd h (by simp)
    · rename_i parentId index hlocation
      split at h
      · exact absurd h (by simp)
      · rename_i replacement hbuild
        exact ⟨parentId, index, replacement, hlocation, hbuild, h⟩
  · rintro ⟨parentId, index, replacement, hlocation, hbuild, hreplace⟩
    simp only [hlocation, hbuild, hreplace]

/-- The edit replaces one node at most. -/
def Unambiguous (p : Plan) : Edit → Prop
  | .replan id _ => p.ids.count id ≤ 1
  | .withArgs _ _ => True

/-- Where no id occurs twice an edit concerns one node. -/
theorem unambiguous_of_nodup {p : Plan} (hp : p.ids.Nodup) (e : Edit) : e.Unambiguous p := by
  cases e with
  | replan id subtree => exact List.nodup_iff_count_le_one.mp hp id
  | withArgs id args => trivial

/-- An edit that replaces one node at most keeps ids at their positions. -/
theorem placed {p q : Plan} {e : Edit} (hp : p.Placed) (hone : e.Unambiguous p)
    (h : e.run? p = some q) : q.Placed := by
  cases e with
  | replan id subtree =>
    obtain ⟨parentId, index, replacement, hlocation, hbuild, hreplace⟩ := run?_replan_eq_some.mp h
    exact hp.replace? hone hlocation (Plan.placed_of_subtreeOfJson hbuild) hreplace
  | withArgs id args => exact hp.withArgs? h

end Edit

namespace Plan

/-- Accepted edits lead from one plan to another; the list has every edit with the plan
that it edits. -/
inductive Edited : Plan → List (Plan × Edit) → Plan → Prop where
  | none {p : Plan} : Edited p [] p
  | more {p q r : Plan} {edits : List (Plan × Edit)} {e : Edit} (hedits : Edited p edits q)
      (hedit : e.run? q = some r) : Edited p (edits ++ [(q, e)]) r

/-- Edits of a placed plan leave it placed. -/
theorem Edited.placed {p q : Plan} {edits : List (Plan × Edit)} (h : Edited p edits q)
    (hp : p.Placed) (hone : ∀ e ∈ edits, e.2.Unambiguous e.1) : q.Placed := by
  induction h with
  | none => exact hp
  | more _ hedit ih =>
    rw [List.forall_mem_append] at hone
    exact Edit.placed (ih hone.1) (hone.2 _ List.mem_cons_self) hedit

/-- Where no plan on the way has a collision, no edit is ambiguous. -/
theorem Edited.placed_of_collisionFree {p q : Plan} {edits : List (Plan × Edit)}
    (h : Edited p edits q) (hp : p.Placed) (hfree : ∀ e ∈ edits, e.1.CollisionFree) :
    q.Placed := by
  induction h with
  | none => exact hp
  | more _ hedit ih =>
    rw [List.forall_mem_append] at hfree
    have hplaced := ih hfree.1
    have hd := hplaced.ids_nodup (hfree.2 _ List.mem_cons_self)
    exact Edit.placed hplaced (Edit.unambiguous_of_nodup hd _) hedit

/-- **Ids follow positions.** After any accepted edits of a plan built from JSON every node
has the id of its place, provided that no replan named an id of several nodes. If the hash
collides nowhere in the plans on the way, that cannot have happened, the ids are distinct,
and the plan has as many nodes as ids. Layers and functions may have any names. -/
theorem Edited.ids_from_positions {json : Json} {p q : Plan} {edits : List (Plan × Edit)}
    (hplan : Plan.ofJson json = .ok p) (hedits : Edited p edits q) :
    ((∀ e ∈ edits, e.2.Unambiguous e.1) → q.Placed) ∧
    ((∀ e ∈ edits, e.1.CollisionFree) → q.CollisionFree →
      q.Placed ∧ q.ids.Nodup ∧ q.count = q.ids.toFinset.card) := by
  have hp := (Placed.ofJson hplan).1
  refine ⟨hedits.placed hp, fun hway hfree => ?_⟩
  have hplaced := hedits.placed_of_collisionFree hp hway
  have hd := hplaced.ids_nodup hfree
  exact ⟨hplaced, hd, by rw [count_eq_length_ids, List.toFinset_card_of_nodup hd]⟩

-- ---------------------------------------------------------------------------
-- Names with separators, and a collision
-- ---------------------------------------------------------------------------

/-- A test that a computed plan passes is passed by the plan that was read. -/
theorem exists_ofJson_of_any {json : Json} {test : Plan → Bool}
    (h : (Plan.ofJson json).toOption.any test = true) :
    ∃ p, Plan.ofJson json = .ok p ∧ test p = true := by
  cases hbuild : Plan.ofJson json with
  | error fault =>
    rw [hbuild] at h
    exact absurd h (by simp [Except.toOption])
  | ok p =>
    rw [hbuild] at h
    exact ⟨p, rfl, h⟩

/-- Two edits of a plan built from JSON, carried out. -/
theorem exists_of_two_edits {json : Json} {e f : Edit} {test : Plan → Plan → Plan → Bool}
    (h : (match Plan.ofJson json with
      | .error _ => false
      | .ok p =>
        match e.run? p with
        | none => false
        | some q =>
          match f.run? q with
          | none => false
          | some r => test p q r) = true) :
    ∃ p q r, Plan.ofJson json = .ok p ∧ p.Edited [(p, e), (q, f)] r ∧ test p q r = true := by
  split at h
  · exact absurd h (by simp)
  · rename_i p hp
    split at h
    · exact absurd h (by simp)
    · rename_i q hq
      split at h
      · exact absurd h (by simp)
      · rename_i r hr
        exact ⟨p, q, r, hp, .more (.more .none hq) hr, h⟩

/-- The JSON of a call. -/
def callJson (layer function : String) (children : List Json) : Json :=
  .obj [("children", .arr children), ("function", .str function), ("layer", .str layer)]

/-- A root with two children that have the separator in their names. -/
def separatorJson : Json :=
  .arr [callJson "a" "f" [callJson "x\x1fy" "z" [], callJson "x" "y\x1fz" []]]

/-- The second child gets arguments, and the first is replaced by a node whose names have
the same bytes, so that its id stays. -/
theorem ids_from_positions_separators :
    ∃ (p r : Plan) (edits : List (Plan × Edit)), Plan.ofJson separatorJson = .ok p ∧
      p.Edited edits r ∧ edits.length = 2 ∧ (∀ e ∈ edits, e.1.CollisionFree) ∧ r.CollisionFree ∧
      r.Placed ∧ r.ids.Nodup ∧ r.count = r.ids.toFinset.card ∧ r.ids = p.ids := by
  obtain ⟨p, q, r, hp, hedits, htest⟩ := @exists_of_two_edits separatorJson
    (.withArgs "n-2f1b8b110b492347" .empty)
    (.replan "n-d7bfce07481e62cc" (callJson "x" "y\x1fz" []))
    (fun p q r => decide (p.CollisionFree ∧ q.CollisionFree ∧ r.CollisionFree ∧ r.ids = p.ids))
    (by decide +kernel)
  obtain ⟨hpfree, hqfree, hrfree, hids⟩ := of_decide_eq_true htest
  have hway : ∀ e ∈ [(p, Edit.withArgs "n-2f1b8b110b492347" .empty),
      (q, Edit.replan "n-d7bfce07481e62cc" (callJson "x" "y\x1fz" []))], e.1.CollisionFree := by
    simp [hpfree, hqfree]
  obtain ⟨hplaced, hd, hcount⟩ := (hedits.ids_from_positions hp).2 hway hrfree
  exact ⟨p, r, _, hp, hedits, rfl, hway, hrfree, hplaced, hd, hcount, hids⟩

/-- A node with two children of one id: the shortened hashes of their places are equal. -/
def collidingJson : Json :=
  callJson "a" "f" [callJson "c6143f941e10da6a" "f" [], callJson "8d6281aa89a31ceb" "f" []]

/-- A replan of an id that two nodes share leaves an id that does not follow its position:
the second node gets the id of the first place. -/
theorem exists_edits_not_placed :
    ¬ ∀ (json : Json) (p q : Plan) (edits : List (Plan × Edit)), Plan.ofJson json = .ok p →
      p.Edited edits q → q.Placed := by
  intro hall
  obtain ⟨p, q, r, hp, hedits, htest⟩ := @exists_of_two_edits (.arr [callJson "a" "f" []])
    (.replan "n-7e01a3288edc5855" collidingJson)
    (.replan "n-f56c52e99bd41580" (callJson "g" "f" []))
    (fun _ _ r => decide (¬ r.Placed)) (by decide +kernel)
  exact of_decide_eq_true htest (hall _ _ _ _ hp hedits)

end Plan

end PlanRunner
