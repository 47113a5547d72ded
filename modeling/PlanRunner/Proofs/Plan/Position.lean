import Mathlib.Data.List.Nodup
import Mathlib.Data.Finset.Card
import PlanRunner.Plan.Basic
import PlanRunner.Proofs.Plan.Id

/-!
# PlanRunner — where the nodes of a plan stand

A node has its id from the place where it stands: from its parent's id, its layer, its
function and its index among its siblings. Where the hash does not map two different
places of a plan to one id, the ids of the plan are distinct: equal ids have parents
with equal ids and equal indices, and so on up to the roots.

* `Node.sites` — the nodes of a subtree with the places where they stand;
* `Plan.Placed` — every id is derived from the place of its node;
* `Plan.CollisionFree` — no two places of a plan share a hash;
* `Plan.Placed.ids_nodup` — such a plan repeats no id.
-/

namespace PlanRunner

/-- A node where it stands in a plan. -/
structure Site where
  parent : Option Node
  /-- The indices from the parent up to a root. -/
  above : List Nat
  index : Nat
  node : Node

namespace Site

/-- The indices from the node up to a root. -/
def place (s : Site) : List Nat := s.index :: s.above

/-- The id of the parent, empty for a root. -/
def parentId (s : Site) : String := (s.parent.map Node.id).getD ""

/-- The bytes that the id of a node at this place is derived from. -/
def preimage (s : Site) : List UInt8 :=
  Plan.idPreimage s.parentId s.node.layer s.node.function s.index

/-- The id of the node is derived from its place. -/
def Derived (s : Site) : Prop :=
  s.node.id = Plan.nodeId s.parentId s.node.layer s.node.function s.index

instance : DecidablePred Derived := fun s =>
  inferInstanceAs (Decidable (s.node.id = _))

end Site

namespace Node

mutual

/-- The nodes of a subtree where they stand, a node before its children. -/
def sites (parent : Option Node) (above : List Nat) (index : Nat) : Node → List Site
  | ⟨id, layer, function, args, parallel, children⟩ =>
    ⟨parent, above, index, ⟨id, layer, function, args, parallel, children⟩⟩ ::
      sitesAll (some ⟨id, layer, function, args, parallel, children⟩) (index :: above) 0 children

def sitesAll (parent : Option Node) (above : List Nat) (index : Nat) : List Node → List Site
  | [] => []
  | n :: ns => n.sites parent above index ++ sitesAll parent above (index + 1) ns

end

/-- The sites of a subtree are its root and those of its children. -/
theorem sites_eq (parent : Option Node) (above : List Nat) (index : Nat) (n : Node) :
    n.sites parent above index =
      ⟨parent, above, index, n⟩ :: sitesAll (some n) (index :: above) 0 n.children := by
  cases n
  rw [sites]

mutual

/-- The sites of a subtree are listed in the order of its ids. -/
theorem map_id_sites : ∀ (parent : Option Node) (above : List Nat) (index : Nat) (n : Node),
    (n.sites parent above index).map (fun s => s.node.id) = n.ids
  | parent, above, index, ⟨id, layer, function, args, parallel, children⟩ => by
    rw [sites, ids, List.map_cons, map_id_sitesAll]

/-- The sites of a forest are listed in the order of its ids. -/
theorem map_id_sitesAll : ∀ (parent : Option Node) (above : List Nat) (index : Nat)
    (ns : List Node), (sitesAll parent above index ns).map (fun s => s.node.id) = idsAll ns
  | _, _, _, [] => rfl
  | parent, above, index, n :: ns => by
    rw [sitesAll, idsAll, List.map_append, map_id_sites, map_id_sitesAll]

end

mutual

/-- A subtree has as many nodes as ids. -/
theorem count_eq_length_ids : ∀ n : Node, n.count = n.ids.length
  | ⟨id, layer, function, args, parallel, children⟩ => by
    rw [count, ids, List.length_cons, countAll_eq_length_ids children, Nat.add_comm]

/-- A forest has as many nodes as ids. -/
theorem countAll_eq_length_ids : ∀ ns : List Node, countAll ns = (idsAll ns).length
  | [] => rfl
  | n :: ns => by
    rw [countAll, idsAll, List.length_append, count_eq_length_ids n, countAll_eq_length_ids ns]

end

/-- The ids of a forest are those of its nodes. -/
theorem mem_idsAll_iff {ns : List Node} {id : String} : id ∈ idsAll ns ↔ ∃ n ∈ ns, id ∈ n.ids := by
  induction ns with
  | nil => simp [idsAll]
  | cons n ns ih => simp [idsAll, ih]

mutual

/-- The sites of a subtree are among those of the whole, in the same order. -/
theorem sites_sublist_of_mem_sites : ∀ {parent : Option Node} {above : List Nat} {index : Nat}
    {n : Node} {s : Site}, s ∈ n.sites parent above index →
      (s.node.sites s.parent s.above s.index).Sublist (n.sites parent above index)
  | parent, above, index, ⟨id, layer, function, args, parallel, children⟩, s, h => by
    rw [sites] at h
    rcases List.mem_cons.mp h with rfl | h
    · exact List.Sublist.refl _
    · rw [sites]
      exact (sites_sublist_of_mem_sitesAll h).cons _

/-- The subtree of a site is a stretch of the forest. -/
theorem sites_sublist_of_mem_sitesAll : ∀ {parent : Option Node} {above : List Nat} {index : Nat}
    {ns : List Node} {s : Site}, s ∈ sitesAll parent above index ns →
      (s.node.sites s.parent s.above s.index).Sublist (sitesAll parent above index ns)
  | _, _, _, [], s, h => by simp [sitesAll] at h
  | parent, above, index, n :: ns, s, h => by
    rw [sitesAll] at h ⊢
    rcases List.mem_append.mp h with h | h
    · exact (sites_sublist_of_mem_sites h).trans (List.sublist_append_left _ _)
    · exact (sites_sublist_of_mem_sitesAll h).trans (List.sublist_append_right _ _)

end

-- ---------------------------------------------------------------------------
-- Places are unique
-- ---------------------------------------------------------------------------

mutual

/-- The place of a site goes on from that of the subtree. -/
theorem place_of_mem_sites : ∀ {parent : Option Node} {above : List Nat} {index : Nat} {n : Node}
    {s : Site}, s ∈ n.sites parent above index → ∃ below, s.place = below ++ [index] ++ above
  | parent, above, index, ⟨id, layer, function, args, parallel, children⟩, s, h => by
    rw [sites] at h
    rcases List.mem_cons.mp h with rfl | h
    · exact ⟨[], rfl⟩
    · obtain ⟨below, i, -, hplace⟩ := place_of_mem_sitesAll h
      exact ⟨below ++ [i], by simp [hplace]⟩

/-- The place of a site of a forest goes through one of its nodes. -/
theorem place_of_mem_sitesAll : ∀ {parent : Option Node} {above : List Nat} {index : Nat}
    {ns : List Node} {s : Site}, s ∈ sitesAll parent above index ns →
      ∃ below i, index ≤ i ∧ s.place = below ++ [i] ++ above
  | _, _, _, [], s, h => by simp [sitesAll] at h
  | parent, above, index, n :: ns, s, h => by
    rw [sitesAll] at h
    rcases List.mem_append.mp h with h | h
    · obtain ⟨below, hplace⟩ := place_of_mem_sites h
      exact ⟨below, index, Nat.le_refl _, hplace⟩
    · obtain ⟨below, i, hi, hplace⟩ := place_of_mem_sitesAll h
      exact ⟨below, i, Nat.le_of_succ_le hi, hplace⟩

end

mutual

/-- No two sites of a subtree have one place. -/
theorem places_nodup : ∀ (parent : Option Node) (above : List Nat) (index : Nat) (n : Node),
    ((n.sites parent above index).map Site.place).Nodup
  | parent, above, index, ⟨id, layer, function, args, parallel, children⟩ => by
    rw [sites, List.map_cons, List.nodup_cons]
    refine ⟨fun h => ?_, placesAll_nodup _ _ _ children⟩
    -- a place below the node is longer than that of the node
    obtain ⟨s, hs, hplace⟩ := List.mem_map.mp h
    obtain ⟨below, i, -, hs⟩ := place_of_mem_sitesAll hs
    have hlength := congrArg List.length (hplace.symm.trans hs)
    simp [Site.place] at hlength
    omega

/-- No two sites of a forest have one place. -/
theorem placesAll_nodup : ∀ (parent : Option Node) (above : List Nat) (index : Nat)
    (ns : List Node), ((sitesAll parent above index ns).map Site.place).Nodup
  | _, _, _, [] => List.nodup_nil
  | parent, above, index, n :: ns => by
    rw [sitesAll, List.map_append, List.nodup_append]
    refine ⟨places_nodup _ _ _ n, placesAll_nodup _ _ _ ns, ?_⟩
    rintro place hplace other hother rfl
    obtain ⟨s, hs, rfl⟩ := List.mem_map.mp hplace
    obtain ⟨t, ht, htplace⟩ := List.mem_map.mp hother
    obtain ⟨below, hs⟩ := place_of_mem_sites hs
    obtain ⟨below', i, hi, ht⟩ := place_of_mem_sitesAll ht
    -- the indices just below the common parent differ
    have hindex := List.append_cancel_right (hs.symm.trans (htplace.symm.trans ht))
    have := (List.append_inj' hindex rfl).2
    simp only [List.cons.injEq, and_true] at this
    omega

end

-- ---------------------------------------------------------------------------
-- Parents
-- ---------------------------------------------------------------------------

mutual

/-- A site below a node is that of a child, or its parent has a site below the node. -/
theorem parent_of_mem_sites : ∀ {parent : Option Node} {above : List Nat} {index : Nat} {n : Node}
    {s : Site}, s ∈ n.sites parent above index →
      s = ⟨parent, above, index, n⟩ ∨
        ∃ t ∈ n.sites parent above index, s.parent = some t.node ∧ s.above = t.place ∧
          t.node.children[s.index]? = some s.node
  | parent, above, index, ⟨id, layer, function, args, parallel, children⟩, s, h => by
    rw [sites] at h ⊢
    rcases List.mem_cons.mp h with rfl | h
    · exact .inl rfl
    · right
      rcases parent_of_mem_sitesAll h with ⟨hparent, habove, hge, hchild⟩ | ⟨t, ht, hs⟩
      · exact ⟨_, List.mem_cons_self, hparent, habove, hchild⟩
      · exact ⟨t, List.mem_cons_of_mem _ ht, hs⟩

/-- A site of a forest is one of its nodes, or it is a child of another site. -/
theorem parent_of_mem_sitesAll : ∀ {parent : Option Node} {above : List Nat} {index : Nat}
    {ns : List Node} {s : Site}, s ∈ sitesAll parent above index ns →
      (s.parent = parent ∧ s.above = above ∧ index ≤ s.index ∧
        ns[s.index - index]? = some s.node) ∨
        ∃ t ∈ sitesAll parent above index ns, s.parent = some t.node ∧ s.above = t.place ∧
          t.node.children[s.index]? = some s.node
  | _, _, _, [], s, h => by simp [sitesAll] at h
  | parent, above, index, n :: ns, s, h => by
    rw [sitesAll] at h ⊢
    rcases List.mem_append.mp h with h | h
    · rcases parent_of_mem_sites h with rfl | ⟨t, ht, hs⟩
      · exact .inl ⟨rfl, rfl, Nat.le_refl _, by simp⟩
      · exact .inr ⟨t, List.mem_append_left _ ht, hs⟩
    · rcases parent_of_mem_sitesAll h with ⟨hparent, habove, hge, hchild⟩ | ⟨t, ht, hs⟩
      · refine .inl ⟨hparent, habove, Nat.le_of_succ_le hge, ?_⟩
        have hshift : s.index - index = s.index - (index + 1) + 1 := by omega
        rw [hshift]
        exact hchild
      · exact .inr ⟨t, List.mem_append_right _ ht, hs⟩

end

end Node

-- ---------------------------------------------------------------------------
-- Ids that follow positions
-- ---------------------------------------------------------------------------

namespace Plan

/-- The nodes of a plan where they stand. -/
def sites (p : Plan) : List Site := Node.sitesAll none [] 0 p.roots

/-- Every node has the id that its parent's id, its layer, its function and its index
among its siblings give. -/
def Placed (p : Plan) : Prop := ∀ s ∈ p.sites, s.Derived

/-- No two places of a plan are different and have the same shortened hash. -/
def CollisionFree (p : Plan) : Prop :=
  ∀ s ∈ p.sites, ∀ t ∈ p.sites, shortHash s.preimage = shortHash t.preimage → s.preimage = t.preimage

instance : DecidablePred Placed := fun p =>
  inferInstanceAs (Decidable (∀ s ∈ p.sites, s.Derived))

instance : DecidablePred CollisionFree := fun p =>
  inferInstanceAs (Decidable (∀ s ∈ p.sites, ∀ t ∈ p.sites,
    shortHash s.preimage = shortHash t.preimage → s.preimage = t.preimage))

variable {p : Plan}

theorem map_id_sites (p : Plan) : p.sites.map (fun s => s.node.id) = p.ids :=
  Node.map_id_sitesAll none [] 0 p.roots

theorem mem_ids_iff {id : String} : id ∈ p.ids ↔ ∃ s ∈ p.sites, s.node.id = id := by
  rw [← map_id_sites, List.mem_map]

theorem mem_ids_of_mem_sites {s : Site} (hs : s ∈ p.sites) : s.node.id ∈ p.ids :=
  mem_ids_iff.mpr ⟨s, hs, rfl⟩

theorem count_eq_length_ids (p : Plan) : p.count = p.ids.length :=
  Node.countAll_eq_length_ids p.roots

/-- A node of a plan is a root, or its parent is a node of the plan. -/
theorem parent_of_mem_sites {s : Site} (hs : s ∈ p.sites) :
    (s.parent = none ∧ s.above = [] ∧ p.roots[s.index]? = some s.node) ∨
      ∃ t ∈ p.sites, s.parent = some t.node ∧ s.above = t.place ∧
        t.node.children[s.index]? = some s.node := by
  rcases Node.parent_of_mem_sitesAll hs with ⟨hparent, habove, -, hroot⟩ | h
  · exact .inl ⟨hparent, habove, hroot⟩
  · exact .inr h

/-- In a placed plan the id of a node is the hash of its preimage. -/
theorem Placed.id_eq (hp : p.Placed) {s : Site} (hs : s ∈ p.sites) :
    s.node.id = hashId s.preimage := by
  have hid := hp s hs
  rw [Site.Derived, nodeId_eq] at hid
  exact hid

/-- The id of a parent is a hash, or empty. -/
theorem Placed.parentId (hp : p.Placed) {s : Site} (hs : s ∈ p.sites) : ParentId s.parentId := by
  unfold Site.parentId
  rcases parent_of_mem_sites hs with ⟨hparent, -⟩ | ⟨t, ht, hparent, -⟩
  · rw [hparent]
    exact .inl rfl
  · rw [hparent]
    exact .inr ⟨t.preimage, hp.id_eq ht⟩

/-- Equal ids stand below equal parents' ids and at equal indices. -/
theorem Placed.parentId_index_eq (hp : p.Placed) (hfree : p.CollisionFree) {s t : Site}
    (hs : s ∈ p.sites) (ht : t ∈ p.sites) (h : s.node.id = t.node.id) :
    s.parentId = t.parentId ∧ s.index = t.index := by
  rw [hp.id_eq hs, hp.id_eq ht] at h
  exact idPreimage_inj (hp.parentId hs) (hp.parentId ht) (hfree s hs t ht (hashId_inj h))

/-- Equal ids stand at the same place: going up from both, the ids of the parents stay
equal, and so do the indices. -/
theorem Placed.place_eq (hp : p.Placed) (hfree : p.CollisionFree) {s t : Site} (hs : s ∈ p.sites)
    (ht : t ∈ p.sites) (h : s.node.id = t.node.id) : s.place = t.place := by
  -- Induction on the depth: equal ids have equal preimages, hence the same parent id and index,
  -- and the parents are equal by induction.
  induction hdepth : s.above.length generalizing s t with
  | zero =>
    obtain ⟨hparentId, hindex⟩ := hp.parentId_index_eq hfree hs ht h
    rcases parent_of_mem_sites hs with ⟨hroot, habove, -⟩ | ⟨u, -, -, habove, -⟩
    · rcases parent_of_mem_sites ht with ⟨-, habove', -⟩ | ⟨v, hv, hparent, -⟩
      · rw [Site.place, Site.place, habove, habove', hindex]
      · -- the parent's id of a root is empty, that of any other node is not
        simp only [Site.parentId, hroot, hparent, Option.map_none, Option.map_some,
          Option.getD_none, Option.getD_some] at hparentId
        exact absurd (hparentId.trans (hp.id_eq hv)).symm (hashId_ne (by decide))
    · simp [habove, Site.place] at hdepth
  | succ depth ih =>
    obtain ⟨hparentId, hindex⟩ := hp.parentId_index_eq hfree hs ht h
    rcases parent_of_mem_sites hs with ⟨-, habove, -⟩ | ⟨u, hu, hparent, habove, -⟩
    · simp [habove] at hdepth
    · rcases parent_of_mem_sites ht with ⟨hroot, -⟩ | ⟨v, hv, hparent', habove', -⟩
      · simp only [Site.parentId, hroot, hparent, Option.map_none, Option.map_some,
          Option.getD_none, Option.getD_some] at hparentId
        exact absurd ((hp.id_eq hu).symm.trans hparentId) (hashId_ne (by decide))
      · simp only [Site.parentId, hparent, hparent', Option.map_some, Option.getD_some] at hparentId
        have hup := ih hu hv hparentId (by simpa [habove, Site.place] using hdepth)
        rw [Site.place, Site.place, habove, habove', hindex, hup]

/-- Ids that follow positions and come from a hash without collisions are distinct. -/
theorem Placed.ids_nodup (hp : p.Placed) (hfree : p.CollisionFree) : p.ids.Nodup := by
  rw [← map_id_sites, List.Nodup, List.pairwise_map]
  -- two sites with one id would stand at one place, but places are distinct
  have hplaces := Node.placesAll_nodup none [] 0 p.roots
  rw [List.Nodup, List.pairwise_map] at hplaces
  exact hplaces.imp_of_mem fun hs ht hne h => hne (hp.place_eq hfree hs ht h)

/-- In a placed plan every id is a hash. -/
theorem Placed.hashId_of_mem_ids (hp : p.Placed) {id : String} (h : id ∈ p.ids) :
    ∃ x, id = hashId x := by
  obtain ⟨s, hs, rfl⟩ := mem_ids_iff.mp h
  exact ⟨s.preimage, hp.id_eq hs⟩

/-- In a plan of distinct ids an id belongs to one place. -/
theorem site_eq_of_id_eq (hd : p.ids.Nodup) {s t : Site} (hs : s ∈ p.sites) (ht : t ∈ p.sites)
    (h : s.node.id = t.node.id) : s = t := by
  rw [← map_id_sites] at hd
  exact List.inj_on_of_nodup_map hd hs ht h

end Plan

end PlanRunner
