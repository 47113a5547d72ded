import Mathlib.Data.List.DropRight
import PlanRunner.Proofs.Json.Sound
import PlanRunner.Proofs.Plan.Format

/-!
# PlanRunner — a stored plan is read back

The stored form of a plan is written by one part of the program and plans are read by another, which
knows several spellings of a field, trims names, fills in defaults and makes up ids. The two meet
at a description of an object that stores a node: what the reader looks up in it. Every such object
is read as the node, provided that the node has names that are trimmed and arguments that survive
being stored, and stands at its place. A plan that was built has such nodes only, and edits leave no
others.

* `Node.Tidy` — what the nodes of a plan that was built have in common;
* `Node.StoredAs` — an object that tells everything about a node but its id;
* `Node.StoredAs.mirrors` — a tidy node mirrors the object that stores it;
* `Plan.tidyAll_of_ofJson`, `Edit.tidyAll` — building and editing lead to tidy nodes;
* `Plan.Edited.ofJson_record` — a stored plan is read as the plan, whatever ids are stored.
-/

namespace PlanRunner

-- ---------------------------------------------------------------------------
-- Names
-- ---------------------------------------------------------------------------

namespace Text

/-- A name without white space around it that is not empty. -/
structure IsName (s : String) : Prop where
  isBlank : isBlank s = false
  trim : trim s = s

/-- A trimmed text starts with no white space. -/
theorem trimStartChars_trimChars (cs : List Char) : trimStartChars (trimChars cs) = trimChars cs := by
  -- what is left starts like the text that was trimmed at its start only
  obtain ⟨rest, hrest⟩ := List.rdropWhile_prefix isBlankChar (trimStartChars cs)
  change trimChars cs ++ rest = trimStartChars cs at hrest
  have hstart : trimStartChars (trimStartChars cs) = trimStartChars cs :=
    List.dropWhile_idempotent isBlankChar cs
  rw [← hrest] at hstart
  refine List.dropWhile_eq_self_iff.mpr fun hpos => ?_
  have hhead := List.dropWhile_eq_self_iff.mp hstart (by rw [List.length_append]; omega)
  rwa [List.getElem_append_left hpos] at hhead

/-- Trimming twice is trimming once. -/
theorem trimChars_trimChars (cs : List Char) : trimChars (trimChars cs) = trimChars cs := by
  have hend : trimEndChars (trimChars cs) = trimChars cs :=
    List.rdropWhile_idempotent isBlankChar (trimStartChars cs)
  rw [trimChars, trimStartChars_trimChars, hend]

theorem trim_trim (s : String) : trim (trim s) = trim s := by
  rw [trim, trim, String.toList_ofList, trimChars_trimChars]

/-- What is left of a text that is not blank is a name. -/
theorem isName_trim {s : String} (h : trim s ≠ "") : IsName (trim s) :=
  ⟨isBlank_eq_false_iff.mpr (by rwa [trim_trim]), trim_trim s⟩

end Text

-- ---------------------------------------------------------------------------
-- Nodes that can be stored
-- ---------------------------------------------------------------------------

/-- Arguments that can be stored: an object stores them, which is well-formed and read as them. -/
structure Value.Storable (args : Value) : Prop where
  isObject : args.record.isObject = true
  sound : args.record.Sound
  ofJson : Value.ofJson args.record = args

/-- An object that was read can be stored. -/
theorem Value.Storable.of_ofJson {json : Json} (hjson : json.Sound) (hobject : json.isObject = true) :
    (Value.ofJson json).Storable := by
  obtain ⟨fields, rfl⟩ := Json.isObject_iff.mp hobject
  exact ⟨rfl, sound_record hjson, ofJson_record_ofJson hjson⟩

namespace Node

mutual

/-- A subtree whose nodes have trimmed names and arguments that can be stored. -/
def Tidy : Node → Prop
  | ⟨_, layer, function, args, _, children⟩ =>
    Text.IsName layer ∧ Text.IsName function ∧ args.Storable ∧ TidyAll children

def TidyAll : List Node → Prop
  | [] => True
  | n :: ns => n.Tidy ∧ TidyAll ns

end

mutual

/-- A change to tidy nodes leaves a tidy subtree. -/
theorem Tidy.edit {target : String} {change : Node → Node}
    (hchange : ∀ n : Node, n.Tidy → (change n).Tidy) :
    ∀ {n : Node}, n.Tidy → (n.edit target change).Tidy
  | ⟨id, layer, function, args, parallel, children⟩, h => by
    rw [Node.edit]
    split
    · exact hchange _ h
    · rw [Tidy] at h ⊢
      exact ⟨h.1, h.2.1, h.2.2.1, TidyAll.edit hchange h.2.2.2⟩

/-- An edit that keeps nodes tidy keeps a forest tidy. -/
theorem TidyAll.edit {target : String} {change : Node → Node}
    (hchange : ∀ n : Node, n.Tidy → (change n).Tidy) :
    ∀ {ns : List Node}, TidyAll ns → TidyAll (editAll target change ns)
  | [], _ => trivial
  | _ :: _, h => ⟨Tidy.edit hchange h.1, TidyAll.edit hchange h.2⟩

end

/-- New arguments that can be stored keep a node tidy. -/
theorem Tidy.withArgs {n : Node} {args : Value} (hn : n.Tidy) (hargs : args.Storable) :
    ({ n with args := args } : Node).Tidy := by
  cases n
  rw [Tidy] at hn ⊢
  exact ⟨hn.1, hn.2.1, hargs, hn.2.2.2⟩

end Node

-- ---------------------------------------------------------------------------
-- Objects that store a node
-- ---------------------------------------------------------------------------

/-- What the fields of an object tell about a node, apart from its children and its id. -/
structure Tells (fields : List (String × Json)) (layer function : String) (args : Value)
    (parallel : Bool) : Prop where
  layer : field? "layer" fields = some (.str layer)
  function : field? "function" fields = some (.str function)
  args : field? "args" fields = some args.record
  parallel : field? "parallel" fields = some (.bool parallel)

namespace Node

mutual

/-- An object that stores a node. The reader makes up the ids, so nothing is said about them, nor
about the order of the fields; an empty list of children may be left out. -/
def StoredAs : Node → Json → Prop
  | ⟨_, layer, function, args, parallel, children⟩, json =>
    ∃ fields, json = .obj fields ∧ Tells fields layer function args parallel ∧
      ∃ items, StoredAllAs children items ∧
        (field? "children" fields = some (.arr items) ∨
          field? "children" fields = none ∧ items = [])

def StoredAllAs : List Node → List Json → Prop
  | [], items => items = []
  | n :: ns, items => ∃ json rest, items = json :: rest ∧ n.StoredAs json ∧ StoredAllAs ns rest

end

end Node

/-- What the fields tell is what they give: the first spelling of each field is the one that is
stored. -/
theorem Tells.gives {fields : List (String × Json)} {layer function : String} {args : Value}
    {parallel : Bool} (h : Tells fields layer function args parallel) (hlayer : Text.IsName layer)
    (hfunction : Text.IsName function) (hargs : args.Storable) :
    Plan.Gives fields layer function args parallel := by
  have hfirst : ∀ {key : String} {keys : List String} {json : Json}, field? key fields = some json →
      Plan.First fields (key :: keys) json :=
    fun hfield => ⟨[], _, _, rfl, by simp, hfield⟩
  -- names are stored trimmed, and trimming does not change them again
  have hname : ∀ {s : String}, Text.IsName s → Text.trim s ≠ "" ∧ s = Text.trim s :=
    fun hs => ⟨Text.isBlank_eq_false_iff.mp hs.isBlank, hs.trim.symm⟩
  refine ⟨⟨layer, hfirst h.layer, hname hlayer⟩, ⟨function, hfirst h.function, hname hfunction⟩, ?_, ?_⟩
  · obtain ⟨stored, hrecord⟩ := Json.isObject_iff.mp hargs.isObject
    have hread := hargs.ofJson
    rw [hrecord] at hread
    rw [← hread]
    exact .object (hfirst (hrecord ▸ h.args))
  · rw [Plan.nodeParallel, h.parallel]

namespace Node

mutual

/-- A tidy node mirrors the object that stores it. -/
theorem StoredAs.mirrors : ∀ {n : Node} {json : Json}, n.StoredAs json → n.Tidy → n.Mirrors json
  | ⟨id, layer, function, args, parallel, children⟩, json, hstored, htidy => by
    rw [StoredAs] at hstored
    rw [Tidy] at htidy
    obtain ⟨fields, rfl, htells, items, hitems, hchildren⟩ := hstored
    obtain ⟨hlayer, hfunction, hargs, hbelow⟩ := htidy
    refine ⟨fields, rfl, htells.gives hlayer hfunction hargs, items, ?_, hitems.mirrorsAll hbelow⟩
    -- the children are in their field, or there are none
    rcases hchildren with hfield | ⟨hfield, rfl⟩
    · rw [hfield]
      exact .array items
    · rw [hfield]
      exact .absent

/-- Stored nodes mirror what they are stored as. -/
theorem StoredAllAs.mirrorsAll : ∀ {ns : List Node} {items : List Json}, StoredAllAs ns items →
    TidyAll ns → MirrorsAll ns items
  | [], _, hstored, _ => hstored
  | n :: ns, items, hstored, htidy => by
    rw [StoredAllAs] at hstored
    obtain ⟨json, rest, rfl, hfirst, hrest⟩ := hstored
    exact ⟨json, rest, rfl, hfirst.mirrors htidy.1, hrest.mirrorsAll htidy.2⟩

end

end Node

-- ---------------------------------------------------------------------------
-- Stored forms
-- ---------------------------------------------------------------------------

namespace Node

mutual

/-- A subtree with other ids. -/
def renamed (rename : String → String) : Node → Node
  | ⟨id, layer, function, args, parallel, children⟩ =>
    ⟨rename id, layer, function, args, parallel, renamedAll rename children⟩

def renamedAll (rename : String → String) : List Node → List Node
  | [] => []
  | n :: ns => n.renamed rename :: renamedAll rename ns

end

mutual

/-- Renaming every id to itself changes nothing. -/
theorem renamed_self : ∀ n : Node, n.renamed (fun id => id) = n
  | ⟨_, _, _, _, _, children⟩ => by
    rw [renamed, renamedAll_self children]

/-- Renaming every id of a forest to itself changes nothing. -/
theorem renamedAll_self : ∀ ns : List Node, renamedAll (fun id => id) ns = ns
  | [] => rfl
  | n :: ns => by rw [renamedAll, renamed_self n, renamedAll_self ns]

end

variable (rename : String → String)

mutual

/-- The stored form stores the node, whatever ids are written in it. -/
theorem storedAs_record : ∀ n : Node, n.StoredAs (n.renamed rename).record
  | ⟨id, layer, function, args, parallel, children⟩ => by
    have hall := storedAllAs_recordAll children
    rw [StoredAs, renamed, record]
    refine ⟨_, rfl, ?_, _, hall, ?_⟩
    · cases children <;> constructor <;> simp [field?, renamedAll]
    · cases children <;> simp [field?, renamedAll, recordAll]

theorem storedAllAs_recordAll : ∀ ns : List Node,
    StoredAllAs ns (recordAll (renamedAll rename ns))
  | [] => rfl
  | n :: ns => ⟨_, _, rfl, storedAs_record n, storedAllAs_recordAll ns⟩

end

mutual

/-- The stored form with its fields in order stores the node as well. -/
theorem storedAs_sorted : ∀ {n : Node}, n.Tidy → n.StoredAs (n.renamed rename).record.sorted
  | ⟨id, layer, function, args, parallel, children⟩, htidy => by
    rw [Tidy] at htidy
    have hargs := htidy.2.2.1.sound.sorted
    have hall := storedAllAs_sortedElems htidy.2.2.2
    rw [StoredAs, renamed, record]
    refine ⟨_, rfl, ?_, _, hall, ?_⟩
    · -- sorting the fields moves them, and what is looked up by name is the same
      cases children <;> constructor <;>
        simp [renamedAll, Json.sortedFields, Json.sorted, sortFields, field?_insertField_ne, hargs]
    · cases children <;>
        simp [field?, renamedAll, Json.sortedFields, Json.sorted, sortFields,
          field?_insertField_ne, Json.sortedElems, recordAll]

theorem storedAllAs_sortedElems : ∀ {ns : List Node}, TidyAll ns →
    StoredAllAs ns (Json.sortedElems (recordAll (renamedAll rename ns)))
  | [], _ => rfl
  | _ :: _, htidy => ⟨_, _, rfl, storedAs_sorted htidy.1, storedAllAs_sortedElems htidy.2⟩

end

end Node

-- ---------------------------------------------------------------------------
-- Plans have tidy nodes
-- ---------------------------------------------------------------------------

namespace Plan

variable {fields : List (String × Json)}

/-- A name that is given is trimmed and not blank. -/
theorem GivesName.isName {keys : List String} {name : String} (h : GivesName fields keys name) :
    Text.IsName name := by
  obtain ⟨s, -, hs, rfl⟩ := h
  exact Text.isName_trim hs

theorem storable_empty : Value.empty.Storable :=
  have hempty : (Json.obj []).Sound := ⟨List.Pairwise.nil, trivial⟩
  Value.Storable.of_ofJson hempty rfl

/-- Arguments that are given by sound fields can be stored. -/
theorem GivesArgs.storable (hfields : Json.SoundFields fields) {args : Value}
    (h : GivesArgs fields args) : args.Storable := by
  cases h with
  | absent => exact storable_empty
  | null => exact storable_empty
  | object hfirst =>
    obtain ⟨before, key, after, -, -, hfield⟩ := hfirst
    exact .of_ofJson (hfields.field? hfield) rfl

/-- The items of sound fields are sound. -/
theorem ChildrenOf.sound {items : List Json} (hfields : Json.SoundFields fields)
    (h : ChildrenOf (field? "children" fields) items) : Json.SoundElems items := by
  generalize hfield : field? "children" fields = field at h
  cases h with
  | absent => trivial
  | null => trivial
  | array => exact hfields.field? hfield

/-- What a sound wrapping holds is sound. -/
theorem Unwraps.sound {json : Json} {items : List Json} (h : Unwraps json items)
    (hjson : json.Sound) : Json.SoundElems items := by
  induction h with
  | list items => exact hjson
  | roots hroots => exact hjson.2.field? hroots
  | plan _ hplan _ ih => exact ih (hjson.2.field? hplan)
  | single => exact ⟨hjson, trivial⟩

end Plan

namespace Node

mutual

/-- A node that mirrors well-formed JSON is tidy. -/
theorem Mirrors.tidy : ∀ {n : Node} {json : Json}, n.Mirrors json → json.Sound → n.Tidy
  | ⟨id, layer, function, args, parallel, children⟩, json, hmirrors, hjson => by
    rw [Mirrors] at hmirrors
    obtain ⟨fields, rfl, hgives, items, hchildren, hitems⟩ := hmirrors
    rw [Json.Sound] at hjson
    exact ⟨hgives.layer.isName, hgives.function.isName, hgives.args.storable hjson.2,
      hitems.tidyAll (hchildren.sound hjson.2)⟩

/-- Nodes that mirror sound items are tidy. -/
theorem MirrorsAll.tidyAll : ∀ {ns : List Node} {items : List Json}, MirrorsAll ns items →
    Json.SoundElems items → TidyAll ns
  | [], _, _, _ => trivial
  | n :: ns, items, hmirrors, hitems => by
    rw [MirrorsAll] at hmirrors
    obtain ⟨json, rest, rfl, hfirst, hrest⟩ := hmirrors
    exact ⟨hfirst.tidy hitems.1, hrest.tidyAll hitems.2⟩

end

end Node

namespace Plan

/-- A subtree that is built from sound JSON is tidy. -/
theorem tidy_of_subtreeOfJson {json : Json} (hjson : json.Sound) {parentId : String} {index : Nat}
    {n : Node} (h : subtreeOfJson json parentId index = .ok n) : n.Tidy := by
  unfold subtreeOfJson at h
  split at h
  · rename_i inner hinner
    exact (mirrors_of_buildNode h).tidy (hjson.get? hinner)
  · exact (mirrors_of_buildNode h).tidy hjson

/-- A plan that is built from well-formed JSON has roots, and all its nodes are tidy. -/
theorem tidyAll_of_ofJson {json : Json} {p : Plan} (hjson : json.Sound)
    (h : Plan.ofJson json = .ok p) : p.roots ≠ [] ∧ Node.TidyAll p.roots := by
  obtain ⟨⟨items, hunwraps, hne, hmirrors, -⟩, -⟩ := ofJson_eq_ok_iff.mp h
  refine ⟨fun hnil => hne ?_, hmirrors.tidyAll (hunwraps.sound hjson)⟩
  rwa [hnil, Node.MirrorsAll] at hmirrors

end Plan

-- ---------------------------------------------------------------------------
-- Edits
-- ---------------------------------------------------------------------------

namespace Edit

/-- The JSON of an edit is well-formed, and arguments are given as an object. -/
def Sound : Edit → Prop
  | .replan _ subtree => subtree.Sound
  | .withArgs _ args => ∃ json : Json, json.Sound ∧ json.isObject = true ∧ args = .ofJson json

/-- An edit leaves tidy nodes. -/
theorem tidyAll {p q : Plan} {e : Edit} (hp : Node.TidyAll p.roots) (he : e.Sound)
    (h : e.run? p = some q) : Node.TidyAll q.roots := by
  cases e with
  | replan id subtree =>
    obtain ⟨parentId, index, replacement, -, hbuild, hreplace⟩ := run?_replan_eq_some.mp h
    rw [Plan.replace?_eq_some hreplace]
    exact hp.edit fun _ _ => Plan.tidy_of_subtreeOfJson he hbuild
  | withArgs id args =>
    obtain ⟨json, hjson, hobject, rfl⟩ := he
    rw [Plan.withArgs?_eq_some h]
    exact hp.edit fun _ hn => hn.withArgs (.of_ofJson hjson hobject)

/-- An edit leaves as many roots as there were. -/
theorem roots_ne_nil {p q : Plan} {e : Edit} (hp : p.roots ≠ []) (h : e.run? p = some q) :
    q.roots ≠ [] := by
  -- an edit changes nodes and takes no root away
  have hedit : ∀ (target : String) (change : Node → Node), (p.edit target change).roots ≠ [] := by
    intro target change
    cases hroots : p.roots with
    | nil => exact absurd hroots hp
    | cons n ns =>
      rw [Plan.edit, hroots, Node.editAll]
      exact List.cons_ne_nil _ _
  cases e with
  | replan id subtree =>
    obtain ⟨parentId, index, replacement, -, -, hreplace⟩ := run?_replan_eq_some.mp h
    rw [Plan.replace?_eq_some hreplace]
    exact hedit _ _
  | withArgs id args =>
    rw [Plan.withArgs?_eq_some h]
    exact hedit _ _

end Edit

-- ---------------------------------------------------------------------------
-- Storing and reading
-- ---------------------------------------------------------------------------

namespace Plan

/-- A plan with other ids. -/
def renamed (rename : String → String) (p : Plan) : Plan :=
  ⟨Node.renamedAll rename p.roots⟩

theorem renamed_self (p : Plan) : p.renamed (fun id => id) = p := by
  rw [renamed, Node.renamedAll_self]

/-- JSON that stores the roots of a plan is read as the plan. -/
theorem ofJson_of_storedAllAs {p : Plan} (hroots : p.roots ≠ []) (htidy : Node.TidyAll p.roots)
    (hplaced : p.Placed) (hd : p.ids.Nodup) {items : List Json}
    (hstored : Node.StoredAllAs p.roots items) {json : Json} (hjson : rootsOf json = .ok items) :
    Plan.ofJson json = .ok p := by
  have hmirrors := hstored.mirrorsAll htidy
  refine ofJson_eq_ok_iff.mpr ⟨⟨items, rootsOf_eq_ok_iff.mp hjson, ?_, hmirrors, hplaced⟩, hd⟩
  rintro rfl
  cases hns : p.roots with
  | nil => exact hroots hns
  | cons n ns =>
    rw [hns, Node.MirrorsAll] at hmirrors
    simp at hmirrors

/-- The stored form of a plan of tidy nodes is read as the plan, also with its fields put in order,
and also with other ids in it. -/
theorem ofJson_record_of_tidyAll {p : Plan} (hroots : p.roots ≠ []) (htidy : Node.TidyAll p.roots)
    (hplaced : p.Placed) (hd : p.ids.Nodup) :
    Plan.ofJson p.record = .ok p ∧ Plan.ofJson p.record.sorted = .ok p ∧
      ∀ rename, Plan.ofJson (p.renamed rename).record = .ok p := by
  -- whatever holds the stored nodes is read as the plan; the two forms hold them, sorted or not
  have hread : ∀ (items : List Json) {stored : Json}, Node.StoredAllAs p.roots items →
      rootsOf stored = .ok items → Plan.ofJson stored = .ok p :=
    fun _ _ hstored hroot => ofJson_of_storedAllAs hroots htidy hplaced hd hstored hroot
  have hrenamed : ∀ rename, Plan.ofJson (p.renamed rename).record = .ok p := fun rename =>
    hread _ (Node.storedAllAs_recordAll rename p.roots) (by simp [record, renamed, rootsOf, field?])
  have hself := hrenamed fun id => id
  rw [renamed_self] at hself
  refine ⟨hself, ?_, hrenamed⟩
  refine hread (Json.sortedElems (Node.recordAll p.roots)) ?_ ?_
  · have hstored := Node.storedAllAs_sortedElems (fun id => id) htidy
    rwa [Node.renamedAll_self] at hstored
  · simp [record, Json.sorted, Json.sortedFields, Json.ofFields, sortFields, insertField, rootsOf,
      field?]

/-- Sound edits keep a plan tidy. -/
theorem Edited.tidyAll {p q : Plan} {edits : List (Plan × Edit)} (h : Edited p edits q)
    (hp : p.roots ≠ [] ∧ Node.TidyAll p.roots) (hsound : ∀ e ∈ edits, e.2.Sound) :
    q.roots ≠ [] ∧ Node.TidyAll q.roots := by
  induction h with
  | none => exact hp
  | more _ hedit ih =>
    rw [List.forall_mem_append] at hsound
    obtain ⟨hroots, htidy⟩ := ih hsound.1
    exact ⟨Edit.roots_ne_nil hroots hedit,
      Edit.tidyAll htidy (hsound.2 _ List.mem_cons_self) hedit⟩

/-- **A stored plan is read back.** After any accepted edits of a plan built from JSON, all JSON
being well-formed and the hash colliding nowhere in the plans on the way, the stored form of the plan
is read as this very plan: roots and children in order, trimmed names, arguments down to the numbers
in them, which nodes run their children together, and ids. This holds as well when the fields of the
stored form are put in order, and no matter which ids are written in it. -/
theorem Edited.ofJson_record {json : Json} {p q : Plan} {edits : List (Plan × Edit)}
    (hjson : json.Sound) (hplan : Plan.ofJson json = .ok p) (hedits : Edited p edits q)
    (hsound : ∀ e ∈ edits, e.2.Sound) (hway : ∀ e ∈ edits, e.1.CollisionFree)
    (hfree : q.CollisionFree) :
    Plan.ofJson q.record = .ok q ∧ Plan.ofJson q.record.sorted = .ok q ∧
      ∀ rename, Plan.ofJson (q.renamed rename).record = .ok q := by
  have hplaced := hedits.placed_of_collisionFree (Placed.ofJson hplan).1 hway
  obtain ⟨hroots, htidy⟩ := hedits.tidyAll (tidyAll_of_ofJson hjson hplan) hsound
  exact ofJson_record_of_tidyAll hroots htidy hplaced (hplaced.ids_nodup hfree)

/-- A root with nested arguments and a child whose names have white space around them. -/
def nestedJson : Json :=
  .obj [("plan", .obj [
    ("args", .obj [("limits", .obj [("max", .int 3), ("ratio", .float 0.5)]),
      ("tags", .arr [.str "a", .null, .int (-7)])]),
    ("children", .arr [.obj [("fn", .str " upper "), ("layer", .str "text\n")]]),
    ("function", .str "say"), ("layer", .str "echo"), ("parallel", .str "TRUE")])]

/-- The new child has a spelling of its own for each field. -/
def nestedSubtreeJson : Json :=
  .obj [("subtree", .obj [("arguments", .obj [("n", .arr [.arr [.float 1.25], .bool true])]),
    ("fn", .str "join"), ("layerName", .str "text")])]

/-- The new arguments of the root. -/
def nestedArgsJson : Json :=
  .obj [("by", .obj [("step", .float (-0.1))]), ("upto", .arr [.int 18446744073709551615, .str "x"])]

/-- The root gets new arguments, and the child is replaced. -/
theorem ofJson_record_nested :
    ∃ (p q : Plan) (edits : List (Plan × Edit)), nestedJson.Sound ∧
      Plan.ofJson nestedJson = .ok p ∧ p.Edited edits q ∧ edits.length = 2 ∧
      (∀ e ∈ edits, e.2.Sound) ∧ (∀ e ∈ edits, e.1.CollisionFree) ∧ q.CollisionFree ∧
      q.count = 2 ∧ Plan.ofJson q.record = .ok q ∧ Plan.ofJson q.record.sorted = .ok q ∧
      ∀ rename, Plan.ofJson (q.renamed rename).record = .ok q := by
  obtain ⟨p, q, r, hp, hedits, htest⟩ := @exists_of_two_edits nestedJson
    (.withArgs "n-b18338a9b10ee7ce" (.ofJson nestedArgsJson))
    (.replan "n-0688e3e11b437e95" nestedSubtreeJson)
    (fun p q r => decide (p.CollisionFree ∧ q.CollisionFree ∧ r.CollisionFree ∧ r.count = 2))
    (by decide +kernel)
  obtain ⟨hpfree, hqfree, hrfree, hcount⟩ := of_decide_eq_true htest
  have hway : ∀ e ∈ [(p, Edit.withArgs "n-b18338a9b10ee7ce" (.ofJson nestedArgsJson)),
      (q, Edit.replan "n-0688e3e11b437e95" nestedSubtreeJson)], e.1.CollisionFree := by
    simp [hpfree, hqfree]
  have hsound : ∀ e ∈ [(p, Edit.withArgs "n-b18338a9b10ee7ce" (.ofJson nestedArgsJson)),
      (q, Edit.replan "n-0688e3e11b437e95" nestedSubtreeJson)], e.2.Sound := by
    have hargs : nestedArgsJson.Sound := by decide +kernel
    have hsubtree : nestedSubtreeJson.Sound := by decide +kernel
    simp only [List.forall_mem_cons, List.not_mem_nil, false_imp_iff, implies_true, and_true]
    exact ⟨⟨_, hargs, rfl, rfl⟩, hsubtree⟩
  have hjson : nestedJson.Sound := by decide +kernel
  obtain ⟨hread, hsorted, hrenamed⟩ := hedits.ofJson_record hjson hp hsound hway hrfree
  exact ⟨p, r, _, hjson, hp, hedits, rfl, hsound, hway, hrfree, hcount, hread, hsorted, hrenamed⟩

end Plan

end PlanRunner
