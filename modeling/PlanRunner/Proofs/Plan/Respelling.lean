import Mathlib.Logic.Relation
import PlanRunner.Proofs.Plan.Format

/-!
# PlanRunner — one plan in several spellings

The same plan may be written in more wrappers or fewer, and a field of a node that is there under one
spelling may as well be there under another. What counts is what the builder looks up, so nothing
that it builds, and no complaint that it makes, depends on this.

* `Plan.Respells` — one field of one node, at any depth, under another spelling;
* `Plan.Respells.buildNode_eq` — the builder makes the same of both objects;
* `Plan.Respelled` — plans that differ in spellings and wrappers only;
* `Plan.ofJson_accepts_format` — the builder accepts the format of plans and mirrors it.
-/

namespace PlanRunner.Plan

variable {fields fields' : List (String × Json)} {keys : List String} {json json' : Json}

-- ---------------------------------------------------------------------------
-- Spellings
-- ---------------------------------------------------------------------------

/-- The fields that have several spellings. -/
def spellings : List (List String) := [layerKeys, functionKeys, argsKeys]

/-- A field is there under one of its spellings only. -/
structure Sole (fields : List (String × Json)) (keys : List String) (key : String) (value : Json) :
    Prop where
  mem : key ∈ keys
  field : field? key fields = some value
  others : ∀ other ∈ keys, other ≠ key → field? other fields = none

/-- A field that was there under one of its spellings only is there under one only, maybe another,
with the same value. Nothing else has changed. -/
structure Renames (keys : List String) (fields fields' : List (String × Json)) : Prop where
  sole : ∃ key key' value, Sole fields keys key value ∧ Sole fields' keys key' value
  rest : ∀ name, name ∉ keys → field? name fields' = field? name fields

/-- One field of a node, or of a node below it, is there under another of its spellings. -/
inductive Respells : Json → Json → Prop where
  | own {keys : List String} {fields fields' : List (String × Json)} (hkeys : keys ∈ spellings)
    (h : Renames keys fields fields') : Respells (.obj fields) (.obj fields')
  | child {fields fields' : List (String × Json)} {before after : List Json} {item item' : Json}
    (hchildren : field? "children" fields = some (.arr (before ++ item :: after)))
    (hchildren' : field? "children" fields' = some (.arr (before ++ item' :: after)))
    (hrest : ∀ name, name ≠ "children" → field? name fields' = field? name fields)
    (h : Respells item item') : Respells (.obj fields) (.obj fields')

/-- The only spelling that occurs is the one that is found. -/
theorem Sole.spelled?_eq {key : String} {value : Json} (h : Sole fields keys key value) :
    spelled? fields keys = some value := by
  obtain ⟨before, after, rfl, hbefore⟩ := List.eq_append_cons_of_mem h.mem
  refine spelled?_eq_some_iff.mpr ⟨before, key, after, rfl, fun other hother => ?_, h.field⟩
  refine h.others other (List.mem_append_left _ hother) ?_
  rintro rfl
  exact hbefore hother

section Replace

variable {key key' : String} {value : Json} {before after : List (String × Json)}

/-- A field that is the only one of its spellings stays so under another of them. -/
theorem sole_replace (hkey : key ∈ keys) (hapart : ∀ f ∈ before ++ after, f.1 ∉ keys) :
    Sole (before ++ (key, value) :: after) keys key value := by
  -- the other spellings are not found before it, nor behind it
  have hother : ∀ {other : String} {fields : List (String × Json)}, other ∈ keys →
      (∀ f ∈ fields, f.1 ∉ keys) → field? other fields = none := by
    intro other fields hmem hfields
    induction fields with
    | nil => rfl
    | cons f fields ih =>
      rw [List.forall_mem_cons] at hfields
      rw [field?, if_neg fun (heq : f.1 = other) => hfields.1 (heq ▸ hmem)]
      exact ih hfields.2
  induction before with
  | nil =>
    rw [List.nil_append] at hapart
    refine ⟨hkey, ?_, fun other hmem hne => ?_⟩
    · rw [List.nil_append, field?, if_pos rfl]
    · rw [List.nil_append, field?, if_neg hne.symm, hother hmem hapart]
  | cons f before ih =>
    rw [List.cons_append, List.forall_mem_cons] at hapart
    have hskip : ∀ other ∈ keys, field? other (f :: before ++ (key, value) :: after) =
        field? other (before ++ (key, value) :: after) := fun other hmem => by
      rw [List.cons_append, field?, if_neg fun (heq : f.1 = other) => hapart.1 (heq ▸ hmem)]
    have hrest := ih hapart.2
    exact ⟨hkey, (hskip key hkey).trans hrest.field,
      fun other hmem hne => (hskip other hmem).trans (hrest.others other hmem hne)⟩

/-- A field that gets another of its names in its place, with no other spelling of it around. -/
theorem renames_replace (hkey : key ∈ keys) (hkey' : key' ∈ keys)
    (hapart : ∀ f ∈ before ++ after, f.1 ∉ keys) :
    Renames keys (before ++ (key, value) :: after) (before ++ (key', value) :: after) := by
  refine ⟨⟨key, key', value, sole_replace hkey hapart, sole_replace hkey' hapart⟩, fun name hname => ?_⟩
  clear hapart
  induction before with
  | nil =>
    have hne : ∀ {other : String}, other ∈ keys → other ≠ name := fun hmem heq => hname (heq ▸ hmem)
    rw [List.nil_append, List.nil_append, field?, field?, if_neg (hne hkey), if_neg (hne hkey')]
  | cons f before ih => rw [List.cons_append, List.cons_append, field?, field?, ih]

end Replace

/-- Whether a spelling is found depends on its fields alone. -/
theorem spelled?_congr (h : ∀ key ∈ keys, field? key fields' = field? key fields) :
    spelled? fields' keys = spelled? fields keys := by
  induction keys with
  | nil => rfl
  | cons key keys ih =>
    rw [List.forall_mem_cons] at h
    rw [spelled?, spelled?, h.1, ih h.2]

/-- A renaming within one group of spellings is not seen in any group. -/
theorem Renames.spelled?_eq (hkeys : keys ∈ spellings) (h : Renames keys fields fields') :
    ∀ others ∈ spellings, spelled? fields' others = spelled? fields others := by
  intro others hothers
  by_cases heq : others = keys
  · obtain ⟨key, key', value, hsole, hsole'⟩ := h.sole
    rw [heq, hsole.spelled?_eq, hsole'.spelled?_eq]
  · -- no spelling belongs to two fields
    have hapart : ∀ keys ∈ spellings, ∀ others ∈ spellings, others ≠ keys →
        ∀ key ∈ others, key ∉ keys := by decide
    exact spelled?_congr fun key hkey => h.rest key (hapart keys hkeys others hothers heq key hkey)

-- ---------------------------------------------------------------------------
-- Building
-- ---------------------------------------------------------------------------

/-- The head of a node depends on the spelled fields alone. -/
theorem nodeHead_congr (hspelled : ∀ keys ∈ spellings, spelled? fields' keys = spelled? fields keys)
    (hparallel : field? "parallel" fields' = field? "parallel" fields) (parentId : String)
    (index : Nat) : nodeHead fields' parentId index = nodeHead fields parentId index := by
  have hlayer := hspelled layerKeys (by decide)
  have hfunction := hspelled functionKeys (by decide)
  have hargs := hspelled argsKeys (by decide)
  unfold nodeHead requireName nodeArgs nodeParallel
  rw [hlayer, hfunction, hargs, hparallel]

/-- Replacing an item that is built alike changes nothing of what is built. -/
theorem buildNodes_replace {item item' : Json} (after : List Json)
    (h : ∀ parentId index, buildNode item' parentId index = buildNode item parentId index)
    (before : List Json) (parentId : String) (index : Nat) :
    buildNodes (before ++ item' :: after) parentId index =
      buildNodes (before ++ item :: after) parentId index := by
  induction before generalizing index with
  | nil => rw [List.nil_append, List.nil_append, buildNodes, buildNodes, h]
  | cons first before ih => rw [List.cons_append, List.cons_append, buildNodes, buildNodes, ih]

/-- The builder makes the same of an object whose fields are spelled in another way. -/
theorem Respells.buildNode_eq (h : Respells json json') (parentId : String) (index : Nat) :
    buildNode json' parentId index = buildNode json parentId index := by
  -- Induction on how deep the respelled node stands; above it only a child changes, which is
  -- built alike.
  induction h generalizing parentId index with
  | @own keys fields fields' hkeys h =>
    have hapart : ∀ keys ∈ spellings, "parallel" ∉ keys ∧ "children" ∉ keys := by decide
    obtain ⟨hparallel, hchildren⟩ := hapart keys hkeys
    have hhead := nodeHead_congr (h.spelled?_eq hkeys) (h.rest _ hparallel) parentId index
    have hamong : ∀ id, childrenAmong fields' id = childrenAmong fields id := fun id => by
      rw [childrenAmong_eq, childrenAmong_eq, h.rest _ hchildren]
    simp only [buildNode, hhead, hamong]
  | @child fields fields' before after item item' hchildren hchildren' hrest _ ih =>
    have hapart : ∀ keys ∈ spellings, ∀ key ∈ keys, key ≠ "children" := by decide
    have hspelled : ∀ keys ∈ spellings, spelled? fields' keys = spelled? fields keys :=
      fun keys hkeys => spelled?_congr fun key hkey => hrest key (hapart keys hkeys key hkey)
    have hhead := nodeHead_congr hspelled (hrest "parallel" (by decide)) parentId index
    have hamong : ∀ id, childrenAmong fields' id = childrenAmong fields id := fun id => by
      rw [childrenAmong_eq, childrenAmong_eq, hchildren, hchildren']
      simp only [Option.map_some, Option.getD_some, buildChildren]
      exact buildNodes_replace after ih before id 0
    simp only [buildNode, hhead, hamong]

/-- Two lists of nodes that differ in the spellings of fields only. -/
abbrev RespelledAll : List Json → List Json → Prop :=
  List.Forall₂ (Relation.ReflTransGen Respells)

/-- Any number of respellings leave the node that is built the same. -/
theorem buildNode_eq_of_respells (h : Relation.ReflTransGen Respells json json') (parentId : String)
    (index : Nat) : buildNode json' parentId index = buildNode json parentId index := by
  induction h with
  | refl => rfl
  | tail _ hlast ih => rw [hlast.buildNode_eq, ih]

/-- Respelled items are built into the same nodes. -/
theorem buildNodes_eq_of_respelledAll {items items' : List Json} (h : RespelledAll items items')
    (parentId : String) (index : Nat) :
    buildNodes items' parentId index = buildNodes items parentId index := by
  induction h generalizing index with
  | nil => rfl
  | cons hfirst _ ih => rw [buildNodes, buildNodes, buildNode_eq_of_respells hfirst, ih]

/-- Two plans whose nodes differ in the spellings of fields only, in whatever wrappers they are. -/
def Respelled (json json' : Json) : Prop :=
  ∃ items items', Unwraps json items ∧ Unwraps json' items' ∧ RespelledAll items items'

/-- A respelled plan is read as the same plan. -/
theorem Respelled.ofJson_eq (h : Respelled json json') : ofJson json' = ofJson json := by
  obtain ⟨items, items', hunwraps, hunwraps', hitems⟩ := h
  rw [ofJson, ofJson, rootsOf_eq_ok_iff.mpr hunwraps, rootsOf_eq_ok_iff.mpr hunwraps']
  cases hitems with
  | nil => rfl
  | cons hfirst hrest =>
    simp only [buildNodes_eq_of_respelledAll (List.Forall₂.cons hfirst hrest)]

/-- JSON in any number of wrappers. -/
def wrapped : Nat → Json → Json
  | 0, json => json
  | n + 1, json => .obj [("plan", wrapped n json)]

/-- Wrapping a plan once more does not change its roots. -/
theorem rootsOf_wrapped (n : Nat) (json : Json) : rootsOf (wrapped n json) = rootsOf json := by
  induction n with
  | zero => rfl
  | succ n ih =>
    rw [wrapped, rootsOf, ← ih]
    simp [field?, wrappedRoots]

-- ---------------------------------------------------------------------------
-- The format
-- ---------------------------------------------------------------------------

/-- A plan is malformed if it is not in the format, or if two of its places share a shortened
hash. -/
theorem malformed_iff (json : Json) :
    (∃ reason, (ofJson json).mapError Fault.toRunError = .error (.malformedPlan reason)) ↔
      ¬ IsPlan json ∨ ∃ p, Describes json p ∧ ¬ p.ids.Nodup := by
  cases hbuilt : ofJson json with
  | ok p =>
    have hdescribes := ofJson_eq_ok_iff.mp hbuilt
    refine iff_of_false (by simp [Except.mapError]) ?_
    rintro (hnot | ⟨q, hq, hrepeated⟩)
    · exact hnot (isPlan_iff.mpr ⟨p, hdescribes.1⟩)
    · exact hrepeated (hdescribes.1.unique hq ▸ hdescribes.2)
  | error fault =>
    refine iff_of_true ⟨fault.message, congrArg Except.error fault.toRunError_eq⟩ ?_
    by_contra hnone
    rw [not_or, not_not] at hnone
    obtain ⟨p, hp⟩ := isPlan_iff.mp hnone.1
    -- JSON in the format describes a plan, and one with distinct ids is built
    have hd : p.ids.Nodup := by_contra fun hrepeated => hnone.2 ⟨p, hp, hrepeated⟩
    exact absurd (hbuilt.symm.trans (ofJson_eq_ok_iff.mpr ⟨hp, hd⟩)) (by simp)

/-- **The builder accepts the format of plans and mirrors it.** Where no two places share a shortened
hash, a plan is built from JSON exactly if the JSON is in the format. A plan that is built has a node
for each object, in the same shape and order, with the trimmed names and the arguments that the
object gives, and ids from its places. What is not built is reported as a malformed plan, and this is
what is not in the format or has such a hash. Wrappers do not matter, nor do the spellings of
fields. -/
theorem ofJson_accepts_format (json : Json) :
    ((∀ p, Describes json p → p.CollisionFree) → ((∃ p, ofJson json = .ok p) ↔ IsPlan json)) ∧
      (∀ p, ofJson json = .ok p → Describes json p) ∧
      ((∃ reason, (ofJson json).mapError Fault.toRunError = .error (.malformedPlan reason)) ↔
        ¬ IsPlan json ∨ ∃ p, Describes json p ∧ ¬ p.ids.Nodup) ∧
      (∀ n, ofJson (wrapped n json) = ofJson json) ∧
      ∀ json', Respelled json json' → ofJson json' = ofJson json := by
  refine ⟨fun hfree => ⟨?_, ?_⟩, fun p h => (ofJson_eq_ok_iff.mp h).1, malformed_iff json, fun n => ?_,
    fun _ h => h.ofJson_eq⟩
  · rintro ⟨p, h⟩
    exact isPlan_iff.mpr ⟨p, (ofJson_eq_ok_iff.mp h).1⟩
  · intro h
    obtain ⟨p, hp⟩ := isPlan_iff.mp h
    have hplaced : p.Placed := by
      obtain ⟨items, -, -, -, hplaced⟩ := hp
      exact hplaced
    exact ⟨p, ofJson_eq_ok_iff.mpr ⟨hp, hplaced.ids_nodup (hfree p hp)⟩⟩
  · rw [ofJson, ofJson, rootsOf_wrapped]

/-- A sum whose arguments are under one of their names. -/
def sumJson (key : String) : Json :=
  .obj [(key, .obj [("expression", .str "1+1")]), ("fn", .str "evaluate"), ("layerName", .str " math\n")]

/-- A text in capitals, whose function is under one of its names. -/
def capitalsJson (key : String) : Json :=
  .obj [(key, .str "upper"), ("layer", .str "text")]

/-- A greeting with a node below it. -/
def greetingJson (child : Json) : Json :=
  .obj [("args", .null), ("children", .arr [child]), ("function", .str "say"),
    ("layer_name", .str "echo"), ("parallel", .str "TRUE")]

/-- Two roots in two wrappers. -/
def roundaboutJson : Json :=
  .obj [("plan", .obj [("roots", .arr [sumJson "arguments", greetingJson (capitalsJson "function")])])]

/-- The same roots without wrappers, with another name for a field of each. -/
def plainJson : Json := .arr [sumJson "args", greetingJson (capitalsJson "fn")]

/-- The roundabout plan is a respelling of the plain one. -/
theorem respelled_plainJson : Respelled roundaboutJson plainJson := by
  have hsum : Respells (sumJson "arguments") (sumJson "args") :=
    .own (by decide : argsKeys ∈ spellings)
      (@renames_replace argsKeys "arguments" "args" _ [] _ (by decide) (by decide) (by decide))
  have hcapitals : Respells (capitalsJson "function") (capitalsJson "fn") :=
    .own (by decide : functionKeys ∈ spellings)
      (@renames_replace functionKeys "function" "fn" _ [] _ (by decide) (by decide) (by decide))
  have hgreeting : Respells (greetingJson (capitalsJson "function"))
      (greetingJson (capitalsJson "fn")) := by
    refine @Respells.child _ _ [] [] _ _ rfl rfl (fun name hname => ?_) hcapitals
    simp [field?, hname.symm]
  exact ⟨_, _, .plan rfl rfl (.roots rfl), .list _, .cons (.single hsum) (.cons (.single hgreeting) .nil)⟩

theorem ofJson_accepts_format_respelled :
    ∃ p, ofJson roundaboutJson = .ok p ∧ p.count = 3 ∧
      (∀ q, Describes roundaboutJson q → q.CollisionFree) ∧ IsPlan roundaboutJson ∧
      Describes roundaboutJson p ∧ ofJson (wrapped 3 roundaboutJson) = .ok p ∧
      Respelled roundaboutJson plainJson ∧ ofJson plainJson = .ok p := by
  obtain ⟨p, hp, htest⟩ := @exists_ofJson_of_any roundaboutJson
    (fun p => decide (p.CollisionFree ∧ p.count = 3)) (by decide +kernel)
  obtain ⟨hfree, hcount⟩ := of_decide_eq_true htest
  obtain ⟨haccepts, hdescribes, -, hwrapped, hrespelled⟩ := ofJson_accepts_format roundaboutJson
  have hdescribed := hdescribes p hp
  have hfreeAll : ∀ q, Describes roundaboutJson q → q.CollisionFree := fun q hq =>
    hdescribed.unique hq ▸ hfree
  exact ⟨p, hp, hcount, hfreeAll, (haccepts hfreeAll).mp ⟨p, hp⟩, hdescribed,
    (hwrapped 3).trans hp, respelled_plainJson, (hrespelled _ respelled_plainJson).trans hp⟩

end PlanRunner.Plan
