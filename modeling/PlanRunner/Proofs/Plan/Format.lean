import Mathlib.Data.List.DropRight
import PlanRunner.Proofs.Plan.Edit

/-!
# PlanRunner — the format of plans

What a planner writes has any shape and depth, so the format of plans is set down here without the
builder: what the wrappers of a plan are, which of several spellings of a field counts, what makes an
object a node, and when a node mirrors an object. The builder accepts the format and nothing else,
and what it builds mirrors the objects one by one.

* `Plan.IsNode`, `Plan.Unwraps`, `Plan.IsPlan` — the format;
* `Node.Mirrors`, `Plan.Describes` — the nodes and the plan that JSON in the format describes;
* `Plan.rootsOf_eq_ok_iff` — wrappers are taken off as the format says;
* `Plan.mirrors_of_buildNode`, `Plan.buildNode_of_mirrors` — the builder gives the node that mirrors
  an object;
* `Plan.ofJson_eq_ok_iff` — a plan is built if JSON describes it and no id comes twice.
-/

namespace PlanRunner

-- ---------------------------------------------------------------------------
-- Blank names
-- ---------------------------------------------------------------------------

namespace Text

/-- Nothing is left of a text when all of it is white space. -/
theorem trimChars_eq_nil_iff {cs : List Char} : trimChars cs = [] ↔ ∀ c ∈ cs, isBlankChar c := by
  constructor
  · intro h
    -- nothing but white space is left at the start, where there is none
    have hstart : ∀ c ∈ trimStartChars cs, isBlankChar c := List.rdropWhile_eq_nil_iff.mp h
    have hnil : trimStartChars (trimStartChars cs) = [] := List.dropWhile_eq_nil_iff.mpr hstart
    rw [trimStartChars, trimStartChars, List.dropWhile_idempotent] at hnil
    exact List.dropWhile_eq_nil_iff.mp hnil
  · intro h
    have hnil : trimStartChars cs = [] := List.dropWhile_eq_nil_iff.mpr h
    rw [trimChars, hnil]
    rfl

/-- A text is not blank when something is left of it. -/
theorem isBlank_eq_false_iff {s : String} : isBlank s = false ↔ trim s ≠ "" := by
  rw [← Bool.not_eq_true, not_iff_not, isBlank, List.all_eq_true, ← trimChars_eq_nil_iff, trim,
    String.ofList_eq_empty_iff]

end Text

-- ---------------------------------------------------------------------------
-- Fields of a node
-- ---------------------------------------------------------------------------

namespace Plan

variable {fields : List (String × Json)} {keys : List String} {json : Json}

/-- An object has a value under the first of several spellings that are there. -/
def First (fields : List (String × Json)) (keys : List String) (json : Json) : Prop :=
  ∃ before key after, keys = before ++ key :: after ∧
    (∀ other ∈ before, field? other fields = none) ∧ field? key fields = some json

/-- An object has none of several spellings. -/
def Absent (fields : List (String × Json)) (keys : List String) : Prop :=
  ∀ key ∈ keys, field? key fields = none

/-- A name is a text that is not blank, without the white space around it. -/
def GivesName (fields : List (String × Json)) (keys : List String) (name : String) : Prop :=
  ∃ s, First fields keys (.str s) ∧ Text.trim s ≠ "" ∧ name = Text.trim s

/-- Arguments are an object; absent and null mean none. -/
inductive GivesArgs (fields : List (String × Json)) : Value → Prop where
  | absent (h : Absent fields argsKeys) : GivesArgs fields .empty
  | null (h : First fields argsKeys .null) : GivesArgs fields .empty
  | object {args : List (String × Json)} (h : First fields argsKeys (.obj args)) :
    GivesArgs fields (.ofJson (.obj args))

/-- Children are an array; absent and null mean none. -/
inductive ChildrenOf : Option Json → List Json → Prop where
  | absent : ChildrenOf none []
  | null : ChildrenOf (some .null) []
  | array (items : List Json) : ChildrenOf (some (.arr items)) items

/-- What the fields of an object give a node, apart from its id and its children. -/
structure Gives (fields : List (String × Json)) (layer function : String) (args : Value)
    (parallel : Bool) : Prop where
  layer : GivesName fields layerKeys layer
  function : GivesName fields functionKeys function
  args : GivesArgs fields args
  parallel : parallel = nodeParallel fields

/-- None of the spellings is found exactly when all are absent. -/
theorem spelled?_eq_none_iff : spelled? fields keys = none ↔ Absent fields keys := by
  unfold Absent
  induction keys with
  | nil => simp [spelled?]
  | cons key keys ih =>
    rw [spelled?, List.forall_mem_cons]
    split
    · rename_i hfield
      simp [hfield]
    · rename_i hfield
      rw [ih]
      exact (and_iff_right hfield).symm

/-- The first spelling that is there is the one that counts. -/
theorem spelled?_eq_some_iff : spelled? fields keys = some json ↔ First fields keys json := by
  -- induction on the spellings, in the order they are looked for
  induction keys with
  | nil => simp [spelled?, First]
  | cons key keys ih =>
    rw [spelled?]
    constructor
    · intro h
      split at h
      · rename_i hfield
        exact ⟨[], key, keys, rfl, by simp, h ▸ hfield⟩
      · rename_i hfield
        obtain ⟨before, other, after, rfl, hbefore, hother⟩ := ih.mp h
        exact ⟨key :: before, other, after, rfl, List.forall_mem_cons.mpr ⟨hfield, hbefore⟩, hother⟩
    · rintro ⟨before, other, after, hkeys, hbefore, hother⟩
      cases before with
      | nil =>
        obtain ⟨rfl, rfl⟩ := List.cons.inj hkeys
        rw [hother]
      | cons first before =>
        obtain ⟨rfl, rfl⟩ := List.cons.inj hkeys
        rw [List.forall_mem_cons] at hbefore
        rw [hbefore.1]
        exact ih.mpr ⟨before, other, after, rfl, hbefore.2, hother⟩

/-- A name is given by a text that is not blank. -/
theorem requireName_eq_ok_iff {what name : String} :
    requireName fields keys what = .ok name ↔ GivesName fields keys name := by
  unfold requireName GivesName
  simp only [← spelled?_eq_some_iff, ← Text.isBlank_eq_false_iff]
  split
  · rename_i s hspelled
    by_cases hblank : Text.isBlank s = true
    · simp [hspelled, hblank]
    · simp [hspelled, hblank, @eq_comm _ name]
  · rename_i hspelled
    simp [hspelled]
  · rename_i hnot hspelled
    simp only [hspelled, reduceCtorEq, Option.some.injEq, false_iff]
    rintro ⟨s, rfl, -, -⟩
    exact hnot s rfl

/-- Arguments are given by an object, or null, or left out. -/
theorem nodeArgs_eq_ok_iff {layer function : String} {args : Value} :
    nodeArgs fields layer function = .ok args ↔ GivesArgs fields args := by
  unfold nodeArgs
  -- absent, null and an object are accepted, in this order
  constructor
  · intro h
    split at h
    · rename_i hspelled
      rw [← Except.ok.inj h]
      exact .absent (spelled?_eq_none_iff.mp hspelled)
    · rename_i hspelled
      rw [← Except.ok.inj h]
      exact .null (spelled?_eq_some_iff.mp hspelled)
    · rename_i given hspelled
      rw [← Except.ok.inj h]
      exact .object (spelled?_eq_some_iff.mp hspelled)
    · exact absurd h (by simp)
  · rintro (habsent | hfirst | hfirst)
    · rw [spelled?_eq_none_iff.mpr habsent]
    · rw [spelled?_eq_some_iff.mpr hfirst]
    · rw [spelled?_eq_some_iff.mpr hfirst]

/-- The head of a node is read when its names and its arguments are given. -/
theorem nodeHead_eq_ok_iff {parentId : String} {index : Nat} {n : Node} :
    nodeHead fields parentId index = .ok n ↔
      ∃ layer function args, Gives fields layer function args (nodeParallel fields) ∧
        n = ⟨nodeId parentId layer function index, layer, function, args, nodeParallel fields, []⟩ := by
  unfold nodeHead
  constructor
  · intro h
    split at h
    · exact absurd h (by simp)
    · rename_i layer hlayer
      split at h
      · exact absurd h (by simp)
      · rename_i function hfunction
        split at h
        · exact absurd h (by simp)
        · rename_i args hargs
          exact ⟨layer, function, args, ⟨requireName_eq_ok_iff.mp hlayer,
            requireName_eq_ok_iff.mp hfunction, nodeArgs_eq_ok_iff.mp hargs, rfl⟩,
            (Except.ok.inj h).symm⟩
  · rintro ⟨layer, function, args, hgives, rfl⟩
    simp only [requireName_eq_ok_iff.mpr hgives.layer, requireName_eq_ok_iff.mpr hgives.function,
      nodeArgs_eq_ok_iff.mpr hgives.args]

/-- The children are those of the first field with their name. -/
theorem childrenAmong_eq (fields : List (String × Json)) (id : String) :
    childrenAmong fields id = ((field? "children" fields).map (buildChildren · id)).getD (.ok []) := by
  induction fields with
  | nil => rw [childrenAmong, field?, Option.map_none, Option.getD_none]
  | cons f fs ih =>
    obtain ⟨k, v⟩ := f
    rw [childrenAmong, field?, ih]
    split
    · rw [Option.map_some, Option.getD_some]
    · rfl

-- ---------------------------------------------------------------------------
-- The format
-- ---------------------------------------------------------------------------

/-- An object that is a node: it gives two names and arguments, and its children are nodes. -/
inductive IsNode : Json → Prop where
  | intro {fields : List (String × Json)} {layer function : String} {args : Value}
    {items : List Json} (hlayer : GivesName fields layerKeys layer)
    (hfunction : GivesName fields functionKeys function) (hargs : GivesArgs fields args)
    (hchildren : ChildrenOf (field? "children" fields) items) (hitems : ∀ item ∈ items, IsNode item) :
    IsNode (.obj fields)

/-- The list that is left when the wrappers of a plan are taken off. `roots` counts before `plan`, and
an object with neither is a single root. -/
inductive Unwraps : Json → List Json → Prop where
  | list (items : List Json) : Unwraps (.arr items) items
  | roots {fields : List (String × Json)} {items : List Json}
    (hroots : field? "roots" fields = some (.arr items)) : Unwraps (.obj fields) items
  | plan {fields : List (String × Json)} {inner : Json} {items : List Json}
    (hroots : field? "roots" fields = none) (hplan : field? "plan" fields = some inner)
    (hinner : Unwraps inner items) : Unwraps (.obj fields) items
  | single {fields : List (String × Json)} (hroots : field? "roots" fields = none)
    (hplan : field? "plan" fields = none) : Unwraps (.obj fields) [.obj fields]

/-- JSON in the format of plans: a list of nodes that is not empty, in any wrappers. -/
def IsPlan (json : Json) : Prop :=
  ∃ items, Unwraps json items ∧ items ≠ [] ∧ ∀ item ∈ items, IsNode item

end Plan

-- ---------------------------------------------------------------------------
-- Nodes that mirror objects
-- ---------------------------------------------------------------------------

namespace Node

mutual

/-- A node mirrors an object: it has the names and the arguments that the object gives, and a child
for each child of the object in order. Ids are not spoken of. -/
def Mirrors : Node → Json → Prop
  | ⟨_, layer, function, args, parallel, children⟩, json =>
    ∃ fields, json = .obj fields ∧ Plan.Gives fields layer function args parallel ∧
      ∃ items, Plan.ChildrenOf (field? "children" fields) items ∧ MirrorsAll children items

def MirrorsAll : List Node → List Json → Prop
  | [], items => items = []
  | n :: ns, items => ∃ json rest, items = json :: rest ∧ n.Mirrors json ∧ MirrorsAll ns rest

end

mutual

/-- What a node mirrors is in the format. -/
theorem Mirrors.isNode : ∀ {n : Node} {json : Json}, n.Mirrors json → Plan.IsNode json
  | ⟨_, layer, function, args, parallel, children⟩, json, h => by
    rw [Mirrors] at h
    obtain ⟨fields, rfl, hgives, items, hchildren, hitems⟩ := h
    exact .intro hgives.layer hgives.function hgives.args hchildren hitems.isNode

/-- Items that mirror nodes are descriptions of nodes. -/
theorem MirrorsAll.isNode : ∀ {ns : List Node} {items : List Json}, MirrorsAll ns items →
    ∀ item ∈ items, Plan.IsNode item
  | [], items, h => by
    rw [MirrorsAll] at h
    simp [h]
  | n :: ns, items, h => by
    rw [MirrorsAll] at h
    obtain ⟨json, rest, rfl, hfirst, hrest⟩ := h
    exact List.forall_mem_cons.mpr ⟨hfirst.isNode, hrest.isNode⟩

end

/-- Nodes for a list of objects, each of which some node mirrors at any place. -/
theorem exists_mirrorsAll {items : List Json}
    (h : ∀ item ∈ items, ∀ parentId index, ∃ n : Node, n.Mirrors item ∧ n.Placed parentId index)
    (parentId : String) (index : Nat) :
    ∃ ns, MirrorsAll ns items ∧ PlacedAll parentId index ns := by
  induction items generalizing index with
  | nil => exact ⟨[], rfl, trivial⟩
  | cons item items ih =>
    rw [List.forall_mem_cons] at h
    obtain ⟨n, hmirrors, hplaced⟩ := h.1 parentId index
    obtain ⟨ns, hmirrorsAll, hplacedAll⟩ := ih h.2 (index + 1)
    exact ⟨n :: ns, ⟨item, items, rfl, hmirrors, hmirrorsAll⟩, hplaced, hplacedAll⟩

/-- JSON in the format has a node that mirrors it, at any place. -/
theorem exists_mirrors {json : Json} (h : Plan.IsNode json) :
    ∀ parentId index, ∃ n : Node, n.Mirrors json ∧ n.Placed parentId index := by
  induction h with
  | @intro fields layer function args items hlayer hfunction hargs hchildren _ ih =>
    intro parentId index
    obtain ⟨children, hmirrors, hplaced⟩ :=
      exists_mirrorsAll ih (Plan.nodeId parentId layer function index) 0
    refine ⟨⟨_, layer, function, args, Plan.nodeParallel fields, children⟩, ?_, rfl, hplaced⟩
    exact ⟨fields, rfl, ⟨hlayer, hfunction, hargs, rfl⟩, items, hchildren, hmirrors⟩

end Node

-- ---------------------------------------------------------------------------
-- Building
-- ---------------------------------------------------------------------------

namespace Plan

/-- What a plan wraps is in the first field with its name. -/
theorem wrappedRoots_eq (fields : List (String × Json)) :
    wrappedRoots fields = (field? "plan" fields).map rootsOf := by
  induction fields with
  | nil => rw [wrappedRoots, field?, Option.map_none]
  | cons f fs ih =>
    obtain ⟨k, v⟩ := f
    rw [wrappedRoots, field?, ih]
    split
    · rw [Option.map_some]
    · rfl

mutual

/-- The roots that are read are those that the wrapping holds. -/
theorem unwraps_of_rootsOf : ∀ {json : Json} {items : List Json}, rootsOf json = .ok items →
    Unwraps json items
  | .arr elems, items, h => by
    rw [rootsOf] at h
    obtain rfl := Except.ok.inj h
    exact .list elems
  | .obj fields, items, h => by
    rw [rootsOf] at h
    split at h
    · rename_i roots hroots
      obtain rfl := Except.ok.inj h
      exact .roots hroots
    · exact absurd h (by simp)
    · rename_i hroots
      cases hwrapped : wrappedRoots fields with
      | none =>
        rw [hwrapped, Option.getD_none] at h
        obtain rfl := Except.ok.inj h
        rw [wrappedRoots_eq, Option.map_eq_none_iff] at hwrapped
        exact .single hroots hwrapped
      | some result =>
        rw [hwrapped, Option.getD_some] at h
        obtain ⟨inner, hplan, hinner⟩ := unwraps_of_wrappedRoots (h ▸ hwrapped)
        exact .plan hroots hplan hinner
  | .null, _, h => by simp [rootsOf] at h
  | .bool _, _, h => by simp [rootsOf] at h
  | .int _, _, h => by simp [rootsOf] at h
  | .float _, _, h => by simp [rootsOf] at h
  | .str _, _, h => by simp [rootsOf] at h

/-- So they are inside a wrapper. -/
theorem unwraps_of_wrappedRoots : ∀ {fields : List (String × Json)} {items : List Json},
    wrappedRoots fields = some (.ok items) →
      ∃ inner, field? "plan" fields = some inner ∧ Unwraps inner items
  | [], _, h => by simp [wrappedRoots] at h
  | (k, v) :: fields, items, h => by
    rw [wrappedRoots] at h
    rw [field?]
    split at h
    · rename_i hkey
      rw [if_pos hkey]
      exact ⟨v, rfl, unwraps_of_rootsOf (Option.some.inj h)⟩
    · rename_i hkey
      rw [if_neg hkey]
      exact unwraps_of_wrappedRoots h

end

/-- Wrappers are taken off as the format says. -/
theorem rootsOf_eq_ok_iff {items : List Json} : rootsOf json = .ok items ↔ Unwraps json items := by
  refine ⟨unwraps_of_rootsOf, fun h => ?_⟩
  -- Induction on the wrapping: each layer is opened by the field that is looked for first.
  induction h with
  | list items => rw [rootsOf]
  | roots hroots =>
    rw [rootsOf]
    simp only [hroots]
  | plan hroots hplan _ ih =>
    rw [rootsOf]
    simp only [hroots, wrappedRoots_eq, hplan, Option.map_some, Option.getD_some, ih]
  | single hroots hplan =>
    rw [rootsOf]
    simp only [hroots, wrappedRoots_eq, hplan, Option.map_none, Option.getD_none]

mutual

/-- A node that was built mirrors its description. -/
theorem mirrors_of_buildNode : ∀ {json : Json} {parentId : String} {index : Nat} {n : Node},
    buildNode json parentId index = .ok n → n.Mirrors json
  | .obj fields, parentId, index, n, h => by
    rw [buildNode] at h
    split at h
    · exact absurd h (by simp)
    · rename_i head hhead
      split at h
      · exact absurd h (by simp)
      · rename_i children hchildren
        obtain rfl := Except.ok.inj h
        obtain ⟨layer, function, args, hgives, rfl⟩ := nodeHead_eq_ok_iff.mp hhead
        obtain ⟨items, hof, hitems⟩ := mirrorsAll_of_childrenAmong hchildren
        exact ⟨fields, rfl, hgives, items, hof, hitems⟩
  | .null, _, _, _, h => by simp [buildNode] at h
  | .bool _, _, _, _, h => by simp [buildNode] at h
  | .int _, _, _, _, h => by simp [buildNode] at h
  | .float _, _, _, _, h => by simp [buildNode] at h
  | .str _, _, _, _, h => by simp [buildNode] at h
  | .arr _, _, _, _, h => by simp [buildNode] at h

/-- Children that were built mirror the items of their field. -/
theorem mirrorsAll_of_childrenAmong : ∀ {fields : List (String × Json)} {parentId : String}
    {ns : List Node}, childrenAmong fields parentId = .ok ns →
      ∃ items, ChildrenOf (field? "children" fields) items ∧ Node.MirrorsAll ns items
  | [], _, _, h => by
    rw [childrenAmong] at h
    obtain rfl := Except.ok.inj h
    exact ⟨[], .absent, rfl⟩
  | (k, v) :: fields, parentId, ns, h => by
    rw [childrenAmong] at h
    rw [field?]
    split at h
    · rename_i hkey
      rw [if_pos hkey]
      exact mirrorsAll_of_buildChildren h
    · rename_i hkey
      rw [if_neg hkey]
      exact mirrorsAll_of_childrenAmong h

/-- Children that were built from a value mirror its items, if it has any. -/
theorem mirrorsAll_of_buildChildren : ∀ {json : Json} {parentId : String} {ns : List Node},
    buildChildren json parentId = .ok ns →
      ∃ items, ChildrenOf (some json) items ∧ Node.MirrorsAll ns items
  | .null, _, _, h => by
    rw [buildChildren] at h
    obtain rfl := Except.ok.inj h
    exact ⟨[], .null, rfl⟩
  | .arr items, _, _, h => by
    rw [buildChildren] at h
    exact ⟨items, .array items, mirrorsAll_of_buildNodes h⟩
  | .bool _, _, _, h => by simp [buildChildren] at h
  | .int _, _, _, h => by simp [buildChildren] at h
  | .float _, _, _, h => by simp [buildChildren] at h
  | .str _, _, _, h => by simp [buildChildren] at h
  | .obj _, _, _, h => by simp [buildChildren] at h

/-- Nodes that were built mirror their items one by one. -/
theorem mirrorsAll_of_buildNodes : ∀ {items : List Json} {parentId : String} {index : Nat}
    {ns : List Node}, buildNodes items parentId index = .ok ns → Node.MirrorsAll ns items
  | [], _, _, _, h => by
    rw [buildNodes] at h
    obtain rfl := Except.ok.inj h
    rfl
  | json :: rest, parentId, index, ns, h => by
    rw [buildNodes] at h
    split at h
    · exact absurd h (by simp)
    · rename_i node hnode
      split at h
      · exact absurd h (by simp)
      · rename_i nodes hnodes
        obtain rfl := Except.ok.inj h
        exact ⟨json, rest, rfl, mirrors_of_buildNode hnode, mirrorsAll_of_buildNodes hnodes⟩

end

mutual

/-- A description is built into the node that mirrors it, at the position its id is derived from. -/
theorem buildNode_of_mirrors : ∀ {n : Node} {json : Json} {parentId : String} {index : Nat},
    n.Mirrors json → n.Placed parentId index → buildNode json parentId index = .ok n
  | ⟨id, layer, function, args, parallel, children⟩, json, parentId, index, hmirrors, hplaced => by
    rw [Node.Mirrors] at hmirrors
    rw [Node.Placed] at hplaced
    obtain ⟨fields, rfl, hgives, items, hof, hitems⟩ := hmirrors
    obtain ⟨rfl, hplacedBelow⟩ := hplaced
    obtain rfl := hgives.parallel
    have hread := buildNodes_of_mirrorsAll hitems hplacedBelow
    have hamong : childrenAmong fields (nodeId parentId layer function index) = .ok children := by
      rw [childrenAmong_eq]
      generalize field? "children" fields = field at hof ⊢
      cases hof with
      | absent => rw [Option.map_none, Option.getD_none, ← hread, buildNodes]
      | null => rw [Option.map_some, Option.getD_some, buildChildren, ← hread, buildNodes]
      | array => rw [Option.map_some, Option.getD_some, buildChildren, hread]
    rw [buildNode, nodeHead_eq_ok_iff.mpr ⟨layer, function, args, hgives, rfl⟩]
    simp only [hamong]

/-- Descriptions are built into the nodes that mirror them. -/
theorem buildNodes_of_mirrorsAll : ∀ {ns : List Node} {items : List Json} {parentId : String}
    {index : Nat}, Node.MirrorsAll ns items → Node.PlacedAll parentId index ns →
      buildNodes items parentId index = .ok ns
  | [], items, parentId, index, hmirrors, _ => by
    rw [Node.MirrorsAll] at hmirrors
    rw [hmirrors, buildNodes]
  | n :: ns, items, parentId, index, hmirrors, hplaced => by
    rw [Node.MirrorsAll] at hmirrors
    rw [Node.PlacedAll] at hplaced
    obtain ⟨json, rest, rfl, hfirst, hrest⟩ := hmirrors
    rw [buildNodes, buildNode_of_mirrors hfirst hplaced.1]
    simp only [buildNodes_of_mirrorsAll hrest hplaced.2]

end

-- ---------------------------------------------------------------------------
-- Plans
-- ---------------------------------------------------------------------------

/-- JSON describes a plan: a root mirrors each object of the list in the wrappers, of which there is
one at least, and the ids follow the places. -/
def Describes (json : Json) (p : Plan) : Prop :=
  ∃ items, Unwraps json items ∧ items ≠ [] ∧ Node.MirrorsAll p.roots items ∧ p.Placed

/-- Where no id occurs twice none is found to repeat. -/
theorem firstRepeated?_of_nodup {seen ids : List String} (hd : ids.Nodup)
    (hnew : ∀ id ∈ ids, id ∉ seen) : firstRepeated? seen ids = none := by
  induction ids generalizing seen with
  | nil => rfl
  | cons id ids ih =>
    rw [List.nodup_cons] at hd
    rw [List.forall_mem_cons] at hnew
    rw [firstRepeated?, if_neg (by simpa using hnew.1)]
    refine ih hd.2 fun other hother => ?_
    rw [List.mem_cons, not_or]
    exact ⟨fun heq => hd.1 (heq ▸ hother), hnew.2 other hother⟩

/-- A plan is built if JSON describes it and no id comes twice. -/
theorem ofJson_eq_ok_iff {p : Plan} : ofJson json = .ok p ↔ Describes json p ∧ p.ids.Nodup := by
  constructor
  · intro h
    -- the tests that were passed are the clauses of the description
    obtain ⟨hplaced, hd⟩ := Placed.ofJson h
    unfold ofJson at h
    split at h
    · exact absurd h (by simp)
    · exact absurd h (by simp)
    · rename_i first rest hroots
      split at h
      · exact absurd h (by simp)
      · rename_i roots hbuild
        simp only at h
        split at h
        · exact absurd h (by simp)
        · obtain rfl := Except.ok.inj h
          exact ⟨⟨_, rootsOf_eq_ok_iff.mp hroots, List.cons_ne_nil _ _,
            mirrorsAll_of_buildNodes hbuild, hplaced⟩, hd⟩
  · rintro ⟨⟨items, hunwraps, hne, hmirrors, hplaced⟩, hd⟩
    have hbuild := buildNodes_of_mirrorsAll hmirrors (placed_iff.mp hplaced)
    have hids : firstRepeated? [] p.ids = none := firstRepeated?_of_nodup hd (by simp)
    rw [ofJson, rootsOf_eq_ok_iff.mpr hunwraps]
    cases items with
    | nil => exact absurd rfl hne
    | cons first rest => simp only [hbuild, hids]

/-- JSON is in the format if it describes a plan. -/
theorem isPlan_iff : IsPlan json ↔ ∃ p, Describes json p := by
  constructor
  · rintro ⟨items, hunwraps, hne, hitems⟩
    obtain ⟨roots, hmirrors, hplaced⟩ :=
      Node.exists_mirrorsAll (fun item hitem => Node.exists_mirrors (hitems item hitem)) "" 0
    exact ⟨⟨roots⟩, items, hunwraps, hne, hmirrors, placed_iff.mpr hplaced⟩
  · rintro ⟨p, items, hunwraps, hne, hmirrors, -⟩
    exact ⟨items, hunwraps, hne, hmirrors.isNode⟩

/-- JSON describes one plan at most. -/
theorem Describes.unique {p q : Plan} (hp : Describes json p) (hq : Describes json q) : p = q := by
  obtain ⟨items, hunwraps, -, hmirrors, hplaced⟩ := hp
  obtain ⟨items', hunwraps', -, hmirrors', hplaced'⟩ := hq
  obtain rfl : items = items' := Except.ok.inj
    ((rootsOf_eq_ok_iff.mpr hunwraps).symm.trans (rootsOf_eq_ok_iff.mpr hunwraps'))
  have hroots := (buildNodes_of_mirrorsAll hmirrors (placed_iff.mp hplaced)).symm.trans
    (buildNodes_of_mirrorsAll hmirrors' (placed_iff.mp hplaced'))
  exact congrArg Plan.mk (Except.ok.inj hroots)

end Plan

end PlanRunner
