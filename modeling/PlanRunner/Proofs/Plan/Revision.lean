import PlanRunner.Proofs.Plan.Graft

/-!
# PlanRunner — laws of revisions

A revision puts another subtree in place of a node or gives the node other arguments. Where ids are
distinct and the new ones stand nowhere else, it exchanges one run of ids for another and leaves the
place of the node as it was; a revision with what is there already does nothing, the later of two
arguments wins, and revisions of two nodes do not see each other unless one is below the other.

* `Node.Grafted.exists_site` — the new subtree of a graft stands where the old one stood;
* `Node.edit_edit_comm` — edits that keep out of each other's nodes commute;
* `Node.Fits` — a subtree that may be put in place of a node without an id occurring twice;
* `Revision` — a replacement or new arguments;
* `Plan.Replaced` — what a replacement makes of ids, look-ups and places;
* `Plan.edit_laws` — the laws.
-/

namespace PlanRunner

-- ---------------------------------------------------------------------------
-- Grafts and edits
-- ---------------------------------------------------------------------------

namespace Node

/-- The new subtree of a graft stands where the old one stood. -/
theorem Grafted.exists_site {old new : Node} {place : String × Nat} {above : String} {index : Nat}
    {ns ns' : List Node} (h : Grafted old new place above index ns ns') :
    ∀ (parent : Option Node) (path : List Nat), parentId parent = above →
      ∃ s ∈ sitesAll parent path index ns', s.node = new ∧ (s.parentId, s.index) = place := by
  -- the graft is a site of the new forest, under the parent it was put below
  induction h with
  | here ns =>
    intro parent path hparent
    refine ⟨⟨parent, path, place.2, new⟩, ?_, rfl, congrArg (·, place.2) hparent⟩
    rw [sitesAll, sites_eq]
    exact List.mem_append_left _ List.mem_cons_self
  | @under _ index n children ns _ ih =>
    intro parent path _
    obtain ⟨s, hs, hsite⟩ := ih (some { n with children := children }) (index :: path) rfl
    refine ⟨s, ?_, hsite⟩
    rw [sitesAll, sites_eq]
    exact List.mem_append_left _ (List.mem_cons_of_mem _ hs)
  | later n _ ih =>
    intro parent path hparent
    obtain ⟨s, hs, hsite⟩ := ih parent path hparent
    rw [sitesAll]
    exact ⟨s, List.mem_append_right _ hs, hsite⟩

/-- A subtree put in its own place changes nothing. -/
theorem Grafted.eq_self {old : Node} {place : String × Nat} {above : String} {index : Nat}
    {ns ns' : List Node} (h : Grafted old old place above index ns ns') : ns' = ns := by
  induction h with
  | here ns => rfl
  | @under _ _ n _ ns _ ih =>
    rw [ih]
    cases n
    rfl
  | later n _ ih => rw [ih]

variable {x y : String} {f g : Node → Node}

mutual

/-- Edits commute where neither finds its id below a node of the other, be it before or after the
change. -/
theorem edit_edit_comm : ∀ {parent : Option Node} {above : List Nat} {index : Nat} {n : Node},
    (∀ s ∈ n.sites parent above index, s.node.id = x → y ∉ s.node.ids ∧ y ∉ (f s.node).ids) →
    (∀ s ∈ n.sites parent above index, s.node.id = y → x ∉ s.node.ids ∧ x ∉ (g s.node).ids) →
      (n.edit x f).edit y g = (n.edit y g).edit x f
  | parent, above, index, ⟨id, layer, function, args, parallel, children⟩, hx, hy => by
    rw [sites, List.forall_mem_cons] at hx hy
    -- the node has the one id, the other, or neither
    by_cases hidx : id = x
    · obtain ⟨hbefore, hafter⟩ := hx.1 hidx
      rw [edit_of_notMem hbefore, edit, if_pos hidx, edit_of_notMem hafter]
    · by_cases hidy : id = y
      · obtain ⟨hbefore, hafter⟩ := hy.1 hidy
        rw [edit_of_notMem hbefore, edit, if_pos hidy, edit_of_notMem hafter]
      · -- the node has neither id, so both edits go on below it
        have hbelow := editAll_editAll_comm hx.2 hy.2
        rw [edit, edit, if_neg hidx, if_neg hidy, edit, edit, if_neg hidx, if_neg hidy, hbelow]

/-- Edits of a forest at unrelated nodes commute. -/
theorem editAll_editAll_comm : ∀ {parent : Option Node} {above : List Nat} {index : Nat}
    {ns : List Node},
    (∀ s ∈ sitesAll parent above index ns, s.node.id = x → y ∉ s.node.ids ∧ y ∉ (f s.node).ids) →
    (∀ s ∈ sitesAll parent above index ns, s.node.id = y → x ∉ s.node.ids ∧ x ∉ (g s.node).ids) →
      editAll y g (editAll x f ns) = editAll x f (editAll y g ns)
  | _, _, _, [], _, _ => rfl
  | parent, above, index, n :: ns, hx, hy => by
    rw [sitesAll, List.forall_mem_append] at hx hy
    rw [editAll, editAll, editAll, editAll, edit_edit_comm hx.1 hy.1, editAll_editAll_comm hx.2 hy.2]

end

/-- A subtree may be put in place of `old`: its ids are distinct, and none of them occurs in the plan
outside of `old`. -/
def Fits (r : Node) (p : Plan) (old : Node) : Prop :=
  r.ids.Nodup ∧ ∀ id ∈ r.ids, id ∈ p.ids → id ∈ old.ids

end Node

-- ---------------------------------------------------------------------------
-- Revisions
-- ---------------------------------------------------------------------------

/-- What an edit may do at a node: put another subtree in its place, or give it other arguments. -/
inductive Revision where
  | replace (replacement : Node)
  | withArgs (args : Value)

namespace Revision

def run? (p : Plan) (id : String) : Revision → Option Plan
  | .replace replacement => p.replace? id replacement
  | .withArgs args => p.withArgs? id args

/-- The node that stands in place of another one. -/
def apply : Revision → Node → Node
  | .replace replacement, _ => replacement
  | .withArgs args, n => { n with args := args }

/-- The revision fits into the plan in place of `old`; arguments always do. -/
def Fits (p : Plan) (old : Node) : Revision → Prop
  | .replace replacement => replacement.Fits p old
  | .withArgs _ => True

variable {p : Plan} {old : Node}

/-- A revision of a node that is there edits it. -/
theorem run?_of_mem_ids {id : String} (h : id ∈ p.ids) :
    ∀ v : Revision, v.run? p id = some (p.edit id v.apply) := by
  have hcontains : p.contains id = true := by
    rw [Plan.contains, Option.isSome_iff_ne_none]
    exact fun hnone => Plan.find?_eq_none_iff.mp hnone h
  intro v
  cases v with
  | replace replacement =>
    rw [run?, Plan.replace?, if_pos hcontains]
    rfl
  | withArgs args =>
    rw [run?, Plan.withArgs?, if_pos hcontains]
    rfl

/-- A revision that fits brings none of the ids outside of the node's subtree. -/
theorem Fits.notMem_ids {v : Revision} (hv : v.Fits p old) {id : String} (hmem : id ∈ p.ids)
    (hout : id ∉ old.ids) : id ∉ (v.apply old).ids := by
  cases v with
  | replace replacement => exact fun hid => hout (hv.2 id hid hmem)
  | withArgs args =>
    rw [apply, Node.ids_eq]
    rw [Node.ids_eq] at hout
    exact hout

end Revision

namespace Plan

variable {p q : Plan} {s : Site}

/-- A new node that stands where an old one stood is looked up by its id, and located there. -/
theorem find?_location?_of_grafted (hd : q.ids.Nodup) {old new : Node} {place : String × Nat}
    (h : Node.Grafted old new place "" 0 p.roots q.roots) :
    q.find? new.id = some new ∧ q.location? new.id = some place := by
  obtain ⟨s, hs, rfl, rfl⟩ := h.exists_site none [] rfl
  exact ⟨find?_of_mem_sites hd hs, location?_of_mem_sites hd hs⟩

-- ---------------------------------------------------------------------------
-- Replacements
-- ---------------------------------------------------------------------------

/-- What a plan `q` is after `new` was put in place of the node `old`, whose id in `p` is `x`. -/
structure Replaced (p : Plan) (x : String) (old new : Node) (q : Plan) : Prop where
  /-- The run of ids of the old subtree is exchanged for that of the new one. -/
  ids : ∃ before after, p.ids = before ++ old.ids ++ after ∧ q.ids = before ++ new.ids ++ after
  count : q.count + old.count = p.count + new.count
  find? : q.find? new.id = some new
  /-- The new subtree stands where the old one stood, and nothing else differs. -/
  place : ∃ place, p.location? x = some place ∧ q.location? new.id = some place ∧
    Node.Grafted old new place "" 0 p.roots q.roots

/-- Ids stay distinct where a subtree is put in place of one that it fits. -/
theorem ids_nodup_of_fits {old new : Node} {before after : List String} (hd : p.ids.Nodup)
    (hfits : new.Fits p old) (hold : p.ids = before ++ old.ids ++ after) :
    (before ++ new.ids ++ after).Nodup := by
  have hperm : ∀ block : List String, (before ++ block ++ after).Perm (block ++ (before ++ after)) := by
    intro block
    rw [List.append_assoc]
    exact List.perm_append_comm_assoc _ _ _
  rw [hold, (hperm _).nodup_iff, List.nodup_append] at hd
  rw [(hperm _).nodup_iff, List.nodup_append]
  refine ⟨hfits.1, hd.2.1, ?_⟩
  rintro id hnew _ hside rfl
  -- an id that stands beside the old subtree is none of its own, and so none of the new one
  have hmem : id ∈ p.ids := by
    rw [hold, (hperm _).mem_iff]
    exact List.mem_append_right _ hside
  exact hd.2.2 id (hfits.2 id hnew hmem) id hside rfl

/-- A subtree that fits is put in place of a node. -/
theorem replaced_edit (hd : p.ids.Nodup) (hs : s ∈ p.sites) {new : Node} (hfits : new.Fits p s.node) :
    p.Replaced s.node.id s.node new (p.edit s.node.id fun _ => new) := by
  have hgrafted := grafted_edit hd hs fun _ => new
  obtain ⟨before, after, hold, hnew⟩ := hgrafted.ids
  have hd' : (p.edit s.node.id fun _ => new).ids.Nodup := by
    rw [ids, hnew]
    exact ids_nodup_of_fits hd hfits hold
  -- the new node is found where the old one was
  obtain ⟨hfind, hlocation⟩ := find?_location?_of_grafted hd' hgrafted
  refine ⟨⟨before, after, hold, hnew⟩, ?_, hfind, _, location?_of_mem_sites hd hs, hlocation,
    hgrafted⟩
  rw [count_eq_length_ids, count_eq_length_ids, Node.count_eq_length_ids, Node.count_eq_length_ids,
    ids, ids, hold, hnew]
  simp only [List.length_append]
  omega

/-- A node put in its own place leaves the plan as it is. -/
theorem edit_self (hd : p.ids.Nodup) (hs : s ∈ p.sites) : (p.edit s.node.id fun _ => s.node) = p :=
  congrArg Plan.mk (grafted_edit hd hs fun _ => s.node).eq_self

-- ---------------------------------------------------------------------------
-- Arguments
-- ---------------------------------------------------------------------------

/-- New arguments of a node are put on top of those that others have been given. -/
theorem withArgs?_reargued (hd : p.ids.Nodup) {args? : String → Option Value} {x : String}
    (hx : x ∈ p.ids) (a : Value) :
    (p.reargued args?).withArgs? x a = some (p.reargued (Node.overruled args? x a)) := by
  have hmem : x ∈ (p.reargued args?).ids := by rwa [ids_reargued]
  have hrun := Revision.run?_of_mem_ids hmem (.withArgs a)
  rw [Revision.run?] at hrun
  rw [hrun, reargued_of_withArgs? hd hrun]

/-- New arguments of a node change those of the node only, and later ones overrule them. -/
theorem exists_withArgs? (hd : p.ids.Nodup) (hs : s ∈ p.sites) (a : Value) :
    ∃ q, p.withArgs? s.node.id a = some q ∧
      q = p.reargued (fun id => if id = s.node.id then some a else none) ∧ q.ids = p.ids ∧
      q.find? s.node.id = some { s.node with args := a } ∧
      ∀ b, q.withArgs? s.node.id b = p.withArgs? s.node.id b := by
  have hmem := mem_ids_of_mem_sites hs
  -- the plan is one in which no node has been given arguments
  have hargs : ∀ b, p.withArgs? s.node.id b =
      some (p.reargued (Node.overruled (fun _ => none) s.node.id b)) := by
    intro b
    conv => lhs; rw [← reargued_none p]
    exact withArgs?_reargued hd hmem b
  have hd' : (p.edit s.node.id fun n => { n with args := a }).ids.Nodup := by
    rwa [← withArgs?_eq_some (hargs a), ids_reargued]
  have hfind := (find?_location?_of_grafted hd' (grafted_edit hd hs _)).1
  rw [← withArgs?_eq_some (hargs a)] at hfind
  refine ⟨_, hargs a, rfl, ids_reargued p, hfind, fun b => ?_⟩
  rw [withArgs?_reargued hd hmem, Node.overruled_overruled, hargs]

-- ---------------------------------------------------------------------------
-- Two nodes
-- ---------------------------------------------------------------------------

/-- Edits of a plan at unrelated nodes commute. -/
theorem edit_edit_comm {x y : String} {f g : Node → Node}
    (hx : ∀ s ∈ p.sites, s.node.id = x → y ∉ s.node.ids ∧ y ∉ (f s.node).ids)
    (hy : ∀ s ∈ p.sites, s.node.id = y → x ∉ s.node.ids ∧ x ∉ (g s.node).ids) :
    (p.edit x f).edit y g = (p.edit y g).edit x f :=
  congrArg Plan.mk (Node.editAll_editAll_comm hx hy)

/-- An edit keeps the ids outside of the edited node's subtree. -/
theorem mem_ids_edit_of_notMem (hd : p.ids.Nodup) (hs : s ∈ p.sites) (change : Node → Node)
    {id : String} (hmem : id ∈ p.ids) (hout : id ∉ s.node.ids) :
    id ∈ (p.edit s.node.id change).ids := by
  obtain ⟨before, after, hold, hnew⟩ := (grafted_edit hd hs change).ids
  rw [ids, hold, List.mem_append, List.mem_append] at hmem
  rw [ids, hnew, List.mem_append, List.mem_append]
  exact hmem.imp_left fun h => .inl (h.resolve_right hout)

/-- Revisions of two nodes, neither below the other, may be made in either order. -/
theorem run?_run?_comm (hd : p.ids.Nodup) {s t : Site} (hs : s ∈ p.sites) (ht : t ∈ p.sites)
    (hst : s.node.id ∉ t.node.ids) (hts : t.node.id ∉ s.node.ids) {v w : Revision}
    (hv : v.Fits p s.node) (hw : w.Fits p t.node) :
    ∃ q, (v.run? p s.node.id).bind (w.run? · t.node.id) = some q ∧
      (w.run? p t.node.id).bind (v.run? · s.node.id) = some q := by
  have hsmem := mem_ids_of_mem_sites hs
  have htmem := mem_ids_of_mem_sites ht
  rw [Revision.run?_of_mem_ids hsmem, Revision.run?_of_mem_ids htmem, Option.bind_some,
    Option.bind_some, Revision.run?_of_mem_ids (mem_ids_edit_of_notMem hd hs _ htmem hts),
    Revision.run?_of_mem_ids (mem_ids_edit_of_notMem hd ht _ hsmem hst)]
  -- each node is still there after the other was edited
  refine ⟨_, rfl, congrArg some (edit_edit_comm ?_ ?_).symm⟩
  · intro u hu huid
    obtain rfl := site_eq_of_id_eq hd hu hs huid
    exact ⟨hts, hv.notMem_ids htmem hts⟩
  · intro u hu huid
    obtain rfl := site_eq_of_id_eq hd hu ht huid
    exact ⟨hst, hw.notMem_ids hsmem hst⟩

-- ---------------------------------------------------------------------------
-- The laws
-- ---------------------------------------------------------------------------

/-- **The laws of edits.** In a plan of distinct ids, at every node of it: a subtree that fits takes
the node's place and nothing else; the node itself changes nothing in its own place; new arguments
change those of the node only, and later ones overrule them; and edits of another node, neither below
the other, may as well be made before. -/
theorem edit_laws (hd : p.ids.Nodup) {x : String} {old : Node} (hx : p.find? x = some old) :
    (∀ new : Node, new.Fits p old → ∃ q, p.replace? x new = some q ∧ p.Replaced x old new q) ∧
      p.replace? x old = some p ∧
      (∀ a, ∃ q, p.withArgs? x a = some q ∧
        q = p.reargued (fun id => if id = x then some a else none) ∧ q.ids = p.ids ∧
        q.find? x = some { old with args := a } ∧ ∀ b, q.withArgs? x b = p.withArgs? x b) ∧
      ∀ y other, p.find? y = some other → x ∉ other.ids → y ∉ old.ids →
        ∀ v w : Revision, v.Fits p old → w.Fits p other →
          ∃ q, (v.run? p x).bind (w.run? · y) = some q ∧ (w.run? p y).bind (v.run? · x) = some q := by
  obtain ⟨s, hs, rfl, rfl⟩ := exists_site_of_find? hx
  have hmem := mem_ids_of_mem_sites hs
  have hreplace := fun new => Revision.run?_of_mem_ids hmem (.replace new)
  -- replacing, putting back, arguments, and two edits in either order
  refine ⟨fun new hfits => ⟨_, hreplace new, replaced_edit hd hs hfits⟩, ?_, exists_withArgs? hd hs, ?_⟩
  · exact (hreplace s.node).trans (congrArg some (edit_self hd hs))
  · intro y other hy hapart hapart' v w hv hw
    obtain ⟨t, ht, rfl, rfl⟩ := exists_site_of_find? hy
    exact run?_run?_comm hd hs ht hapart hapart' hv hw

/-- A call of which the two below it run together. -/
def pairNode : Node :=
  ⟨"b", "echo", "say", .empty, true, [⟨"c", "echo", "say", .empty, false, []⟩,
    ⟨"d", "echo", "say", .empty, false, []⟩]⟩

/-- A call below which another one takes the id of a call of the pair. -/
def chainNode : Node :=
  ⟨"x", "echo", "say", .empty, false, [⟨"c", "echo", "say", .empty, false, []⟩]⟩

def pairPlan : Plan :=
  ⟨[⟨"a", "echo", "say", .empty, false, [pairNode]⟩, ⟨"e", "echo", "say", .empty, false, []⟩]⟩

theorem edit_laws_pair :
    pairPlan.ids.Nodup ∧ pairPlan.find? "b" = some pairNode ∧ chainNode.Fits pairPlan pairNode ∧
      (∃ q, pairPlan.replace? "b" chainNode = some q ∧ q.count = 4 ∧ q.find? "x" = some chainNode ∧
        q.location? "x" = some ("a", 0)) ∧
      (∃ q, pairPlan.withArgs? "b" (.str "new") = some q ∧ q.ids = ["a", "b", "c", "d", "e"]) ∧
      "b" ∉ (["e"] : List String) ∧ "e" ∉ pairNode.ids ∧
      ∃ q, (pairPlan.replace? "b" chainNode).bind (·.withArgs? "e" (.str "new")) = some q ∧
        (pairPlan.withArgs? "e" (.str "new")).bind (·.replace? "b" chainNode) = some q := by
  have hd : pairPlan.ids.Nodup := by decide
  have hfind : pairPlan.find? "b" = some pairNode := rfl
  have hfits : chainNode.Fits pairPlan pairNode := ⟨by decide, by decide⟩
  obtain ⟨hreplaced, -, hargs, hcomm⟩ := edit_laws hd hfind
  obtain ⟨q, hq, hlaws⟩ := hreplaced chainNode hfits
  obtain ⟨place, hplace, hlocation, -⟩ := hlaws.place
  obtain rfl := Option.some.inj (hplace.symm.trans (by decide : _ = some ("a", 0)))
  have hcount : q.count + 3 = 5 + 2 := hlaws.count
  obtain ⟨r, hr, -, hids, -⟩ := hargs (.str "new")
  exact ⟨hd, hfind, hfits, ⟨q, hq, by omega, hlaws.find?, hlocation⟩, ⟨r, hr, hids⟩, by decide, by decide,
    hcomm "e" _ rfl (by decide) (by decide) (.replace chainNode) (.withArgs (.str "new")) hfits trivial⟩

end Plan

end PlanRunner
