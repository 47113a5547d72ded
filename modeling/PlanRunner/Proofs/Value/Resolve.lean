import Mathlib.Tactic.SplitIfs
import PlanRunner.Value.Basic

/-!
# PlanRunner — earlier outputs in place of the leaves that name them

The arguments of a call may name the output of the parent and that of the sibling just before. All
of them are put in at once: what becomes of a leaf depends on that leaf alone. An output may itself
say `$parent` or `$prev`, since a layer returns what it likes; it is put in as it is.

* `Value.Label`, `Value.inner` — a value as its outermost layer and the values right below that;
* `Value.Substituted` — simultaneous substitution, place by place;
* `Value.substituted_iff` — what is computed is the substitution, and nothing else is;
* `Value.resolve_simultaneous` — the substitution and the laws that follow from it.
-/

namespace PlanRunner

namespace Value

-- ---------------------------------------------------------------------------
-- Values layer by layer
-- ---------------------------------------------------------------------------

/-- A value without the values below it: a leaf, the length of a list, the names of a mapping. -/
inductive Label where
  | text (s : String)
  | number (x : Float)
  | items (length : Nat)
  | fields (names : List String)

def label : Value → Label
  | .str s => .text s
  | .num x => .number x
  | .list items => .items items.length
  | .map fields => .fields (fields.map Prod.fst)

/-- The values right below a value: the items of a list, or what a mapping has under its names. -/
def inner : Value → List Value
  | .list items => items
  | .map fields => fields.map Prod.snd
  | _ => []

/-- The part of a value at a place, which is given by positions from outside to inside. -/
def within? : List Nat → Value → Option Value
  | [], v => some v
  | i :: place, v => v.inner[i]?.bind (within? place)

variable {v w : Value}

/-- A value is its label and its parts. -/
theorem eq_of_label_inner (hlabel : v.label = w.label) (hinner : v.inner = w.inner) : v = w := by
  cases v <;> cases w <;> simp only [label, inner, Label.text.injEq, Label.number.injEq,
    Label.fields.injEq, reduceCtorEq] at hlabel hinner
  · rw [hlabel]
  · rw [hlabel]
  · rw [hinner]
  · rename_i fields fields'
    rw [List.zip_of_prod hlabel hinner, ← List.zip_of_prod rfl rfl]

/-- The label tells how many parts there are. -/
theorem length_inner_eq (hlabel : v.label = w.label) : v.inner.length = w.inner.length := by
  cases v <;> cases w <;> simp only [label, inner, Label.items.injEq, Label.fields.injEq,
    reduceCtorEq] at hlabel ⊢
  · exact hlabel
  · simpa using congrArg List.length hlabel

/-- A place is reached part by part. -/
theorem within?_cons {v u : Value} {i : Nat} (h : v.inner[i]? = some u) (place : List Nat) :
    v.within? (i :: place) = u.within? place := by
  rw [within?, h, Option.bind_some]

mutual

/-- What holds of a value if it holds of all values right below it holds of every value. -/
theorem of_inner {P : Value → Prop} (h : ∀ v : Value, (∀ u ∈ v.inner, P u) → P v) : ∀ v, P v
  | .str s => h (.str s) fun _ hu => absurd hu List.not_mem_nil
  | .num x => h (.num x) fun _ hu => absurd hu List.not_mem_nil
  | .list items => h (.list items) (of_inner_items h items)
  | .map fields => h (.map fields) (of_inner_fields h fields)

/-- What holds of a value if it holds of its parts holds of the items of a list. -/
theorem of_inner_items {P : Value → Prop} (h : ∀ v : Value, (∀ u ∈ v.inner, P u) → P v) :
    ∀ vs : List Value, ∀ u ∈ vs, P u
  | [] => by simp
  | v :: vs => List.forall_mem_cons.mpr ⟨of_inner h v, of_inner_items h vs⟩

/-- It holds of the values of fields too. -/
theorem of_inner_fields {P : Value → Prop} (h : ∀ v : Value, (∀ u ∈ v.inner, P u) → P v) :
    ∀ fs : List (String × Value), ∀ u ∈ fs.map Prod.snd, P u
  | [] => by simp
  | (_, v) :: fs => List.forall_mem_cons.mpr ⟨of_inner h v, of_inner_fields h fs⟩

end

-- ---------------------------------------------------------------------------
-- One layer of a resolved value
-- ---------------------------------------------------------------------------

variable {parent prev : Option Value}

/-- The earlier output that stands in place of a value: there is one only for a leaf that names it,
and only if it is present. -/
def upstream? (parent prev : Option Value) : Value → Option Value
  | .str s => if s = parentRef then parent else if s = prevRef then prev else none
  | _ => none

/-- Whether a value refers to an output can be seen at its label. -/
theorem upstream?_congr (h : v.label = w.label) :
    v.upstream? parent prev = w.upstream? parent prev := by
  cases v <;> cases w <;> simp only [label, Label.text.injEq, reduceCtorEq] at h
  · rw [h]
  all_goals rfl

/-- What an output stands in place of is a leaf that names it, and the output is present. -/
theorem upstream?_eq_some {u : Value} (h : v.upstream? parent prev = some u) :
    v = .str parentRef ∧ parent = some u ∨ v = .str prevRef ∧ prev = some u := by
  cases v with
  | str s =>
    rw [upstream?] at h
    split_ifs at h with hparent hprev
    · exact .inl ⟨congrArg _ hparent, h⟩
    · exact .inr ⟨congrArg _ hprev, h⟩
  | num x => exact absurd h (by simp [upstream?])
  | list items => exact absurd h (by simp [upstream?])
  | map fields => exact absurd h (by simp [upstream?])

/-- A value that refers to an output has no parts. -/
theorem inner_of_upstream? {u : Value} (h : v.upstream? parent prev = some u) : v.inner = [] := by
  rcases upstream?_eq_some h with ⟨rfl, -⟩ | ⟨rfl, -⟩ <;> rfl

theorem resolve_str (s : String) :
    (Value.str s).resolve parent prev = ((Value.str s).upstream? parent prev).getD (.str s) := by
  rw [resolve, resolveLeaf, upstream?]
  split_ifs <;> rfl

/-- A value that refers to an output resolves to the output. -/
theorem resolve_of_upstream? {u : Value} (h : v.upstream? parent prev = some u) :
    v.resolve parent prev = u := by
  obtain ⟨s, rfl⟩ : ∃ s, v = .str s := by
    rcases upstream?_eq_some h with ⟨rfl, -⟩ | ⟨rfl, -⟩ <;> exact ⟨_, rfl⟩
  rw [resolve_str, h, Option.getD_some]

/-- Fields are resolved one by one, under their keys. -/
theorem resolveFields_eq_map (parent prev : Option Value) (fs : List (String × Value)) :
    resolveFields parent prev fs = fs.map fun f => (f.1, f.2.resolve parent prev) := by
  induction fs with
  | nil => rfl
  | cons f fs ih => rw [resolveFields, ih, List.map_cons]

/-- What is not replaced keeps its outermost layer. -/
theorem label_resolve (h : v.upstream? parent prev = none) :
    (v.resolve parent prev).label = v.label := by
  cases v with
  | str s => rw [resolve_str, h, Option.getD_none]
  | num x => rw [resolve]
  | list items => rw [resolve, label, label, resolveItems_eq_map, List.length_map]
  | map fields =>
    rw [resolve, label, label, resolveFields_eq_map, List.map_map]
    rfl

/-- Resolving a value that is no reference resolves its parts. -/
theorem inner_resolve (h : v.upstream? parent prev = none) :
    (v.resolve parent prev).inner = v.inner.map (resolve parent prev) := by
  cases v with
  | str s =>
    rw [resolve_str, h, Option.getD_none]
    rfl
  | num x =>
    rw [resolve]
    rfl
  | list items => rw [resolve, inner, inner, resolveItems_eq_map]
  | map fields =>
    rw [resolve, inner, inner, resolveFields_eq_map, List.map_map, List.map_map]
    rfl

/-- The part at a place is resolved as if it stood alone. -/
theorem within?_resolve {place : List Nat} {part : Value} (h : v.within? place = some part) :
    (v.resolve parent prev).within? place = some (part.resolve parent prev) := by
  -- induction on the place; no reference stands above it, since references have no parts
  induction place generalizing v with
  | nil =>
    rw [within?, Option.some_inj] at h ⊢
    rw [h]
  | cons i place ih =>
    rw [within?, Option.bind_eq_some_iff] at h
    obtain ⟨u, hu, hpart⟩ := h
    have hnone : v.upstream? parent prev = none := by
      cases hupstream : v.upstream? parent prev with
      | none => rfl
      | some _ => simp [inner_of_upstream? hupstream] at hu
    rw [within?, inner_resolve hnone, List.getElem?_map, hu, Option.map_some, Option.bind_some]
    exact ih hpart

-- ---------------------------------------------------------------------------
-- Simultaneous substitution
-- ---------------------------------------------------------------------------

/-- A value with earlier outputs in place of all leaves that name them. Where such a leaf was, the
whole output is found, as it is. Everywhere else the same is found as before: the same leaf, a list
of the same length, a mapping with the same names. -/
structure Substituted (parent prev : Option Value) (v w : Value) : Prop where
  put : ∀ {place leaf u}, v.within? place = some leaf → leaf.upstream? parent prev = some u →
    w.within? place = some u
  kept : ∀ {place part}, v.within? place = some part → part.upstream? parent prev = none →
    ∃ new, w.within? place = some new ∧ new.label = part.label

/-- What is resolved has its references replaced, and nothing else. -/
theorem substituted_resolve (v : Value) : Substituted parent prev v (v.resolve parent prev) where
  put hleaf hu := by rw [within?_resolve hleaf, resolve_of_upstream? hu]
  kept hpart hnone := ⟨_, within?_resolve hpart, label_resolve hnone⟩

/-- A part of a substituted value is its part, substituted. -/
theorem Substituted.inner {i : Nat} {u w' : Value} (h : Substituted parent prev v w)
    (hu : v.inner[i]? = some u) (hw : w.inner[i]? = some w') : Substituted parent prev u w' where
  put := fun {place _ _} hleaf hput => by
    rw [← within?_cons hw place]
    exact h.put ((within?_cons hu place).trans hleaf) hput
  kept := fun {place _} hpart hnone => by
    rw [← within?_cons hw place]
    exact h.kept ((within?_cons hu place).trans hpart) hnone

/-- There is one substitution only. -/
theorem Substituted.eq (h : Substituted parent prev v w) : w = v.resolve parent prev := by
  induction v using of_inner generalizing w with
  | h v ih =>
  cases hupstream : v.upstream? parent prev with
  | some u =>
    have hw : w.within? [] = some u := h.put rfl hupstream
    rw [resolve_of_upstream? hupstream, Option.some.inj hw]
  | none =>
    obtain ⟨new, hnew, hlabel⟩ : ∃ new, w.within? [] = some new ∧ new.label = v.label :=
      h.kept rfl hupstream
    obtain rfl : w = new := Option.some.inj hnew
    refine eq_of_label_inner (hlabel.trans (label_resolve hupstream).symm) ?_
    -- position by position, what is below is a substitution too
    rw [inner_resolve hupstream]
    refine List.ext_getElem ((length_inner_eq hlabel).trans (List.length_map _).symm) fun i hi hi' => ?_
    rw [List.length_map] at hi'
    rw [List.getElem_map]
    exact ih _ (List.getElem_mem hi') (h.inner (List.getElem?_eq_getElem hi')
      (List.getElem?_eq_getElem hi))

/-- What is computed is the substitution, and nothing else is. -/
theorem substituted_iff : Substituted parent prev v w ↔ w = v.resolve parent prev := by
  constructor
  · exact Substituted.eq
  · rintro rfl
    exact substituted_resolve v

-- ---------------------------------------------------------------------------
-- Values that name no earlier output
-- ---------------------------------------------------------------------------

/-- A text is one of the leaves of a value. -/
def Mentions (text : String) (v : Value) : Prop := ∃ place, v.within? place = some (.str text)

/-- No leaf of a value names an earlier output. -/
structure Plain (v : Value) : Prop where
  parent : ¬ v.Mentions parentRef
  prev : ¬ v.Mentions prevRef

/-- A value without parts mentions only itself. -/
theorem mentions_iff_of_leaf {text : String} (h : v.inner = []) : v.Mentions text ↔ v = .str text := by
  constructor
  · rintro ⟨place, hplace⟩
    cases place with
    | nil => exact Option.some.inj hplace
    | cons i place => simp [within?, h] at hplace
  · rintro rfl
    exact ⟨[], rfl⟩

/-- A value stays as it is if no earlier output is present that it names. -/
theorem resolve_eq_self (hparent : parent = none ∨ ¬ v.Mentions parentRef)
    (hprev : prev = none ∨ ¬ v.Mentions prevRef) : v.resolve parent prev = v := by
  refine (Substituted.eq ⟨fun {place leaf u} hleaf hu => ?_, fun hpart _ => ⟨_, hpart, rfl⟩⟩).symm
  rcases upstream?_eq_some hu with ⟨rfl, rfl⟩ | ⟨rfl, rfl⟩
  · exact absurd ⟨place, hleaf⟩ (hparent.resolve_left (by simp))
  · exact absurd ⟨place, hleaf⟩ (hprev.resolve_left (by simp))

-- ---------------------------------------------------------------------------
-- One resolution after another
-- ---------------------------------------------------------------------------

/-- Two resolutions come to one, if they come to it at each leaf that it replaces and neither
replaces any other leaf. -/
theorem resolve_resolve {parent₁ prev₁ parent₂ prev₂ : Option Value}
    (hput : ∀ {leaf u : Value}, leaf.upstream? parent prev = some u →
      (leaf.resolve parent₁ prev₁).resolve parent₂ prev₂ = u)
    (hkept : ∀ {part : Value}, part.upstream? parent prev = none →
      part.upstream? parent₁ prev₁ = none ∧ part.upstream? parent₂ prev₂ = none) :
    (v.resolve parent₁ prev₁).resolve parent₂ prev₂ = v.resolve parent prev := by
  refine Substituted.eq ⟨fun hleaf hu => ?_, fun hpart hnone => ?_⟩
  · rw [within?_resolve (within?_resolve hleaf), hput hu]
  · refine ⟨_, within?_resolve (within?_resolve hpart), ?_⟩
    obtain ⟨hfirst, hsecond⟩ := hkept hnone
    have hlabel := label_resolve hfirst
    rw [label_resolve ((upstream?_congr hlabel).trans hsecond), hlabel]

/-- Nothing is left to be put into a resolved value, if the outputs name no other output. -/
theorem resolve_again (hparent : ∀ u ∈ parent, u.Plain) (hprev : ∀ u ∈ prev, u.Plain) :
    (v.resolve parent prev).resolve parent prev = v.resolve parent prev := by
  refine resolve_resolve (fun {leaf u} hu => ?_) fun hnone => ⟨hnone, hnone⟩
  have hplain : u.Plain := by
    rcases upstream?_eq_some hu with ⟨-, hu⟩ | ⟨-, hu⟩
    · exact hparent u hu
    · exact hprev u hu
  rw [resolve_of_upstream? hu, resolve_eq_self (.inr hplain.parent) (.inr hplain.prev)]

/-- The two outputs may be put in one after the other, if the first does not name the second. -/
theorem resolve_parent_prev (hparent : ∀ u ∈ parent, ¬ u.Mentions prevRef) :
    (v.resolve parent none).resolve none prev = v.resolve parent prev := by
  -- the two resolutions agree at every leaf, and meet the same parts above them
  refine resolve_resolve (fun {leaf u} hu => ?_) fun {part} hnone => ?_
  · rcases upstream?_eq_some hu with ⟨rfl, rfl⟩ | ⟨rfl, rfl⟩
    · have hfirst : (Value.str parentRef).resolve (some u) none = u := rfl
      rw [hfirst, resolve_eq_self (.inl rfl) (.inr (hparent u rfl))]
    · -- the first resolution leaves the leaf for the second one
      have hfirst : (Value.str prevRef).resolve parent none = .str prevRef := rfl
      rw [hfirst]
      rfl
  · cases part with
    | str s =>
      rw [upstream?] at hnone ⊢
      rw [upstream?]
      split_ifs at hnone ⊢ <;> simp_all
    | num x => exact ⟨rfl, rfl⟩
    | list items => exact ⟨rfl, rfl⟩
    | map fields => exact ⟨rfl, rfl⟩

/-- **References are resolved all at once.** Resolving a value is substituting outputs for the leaves
that name them: it does that and nothing else, and what is put in stays as it is. So nothing happens
without outputs; nothing is left to do a second time, if the outputs are plain; and the parent's
output may be put in first and that of the sibling then, if the former does not name the latter. -/
theorem resolve_simultaneous (v : Value) (parent prev : Option Value) :
    (∀ w, Substituted parent prev v w ↔ w = v.resolve parent prev) ∧
      v.resolve none none = v ∧
      ((∀ u ∈ parent, u.Plain) → (∀ u ∈ prev, u.Plain) →
        (v.resolve parent prev).resolve parent prev = v.resolve parent prev) ∧
      ((∀ u ∈ parent, ¬ u.Mentions prevRef) →
        v.resolve parent prev = (v.resolve parent none).resolve none prev) :=
  ⟨fun _ => substituted_iff, resolve_eq_self (.inl rfl) (.inl rfl), resolve_again,
    fun hparent => (resolve_parent_prev hparent).symm⟩

/-- Arguments that name both outputs, and hold a text that only begins like a name of one. -/
def nestedArgs : Value :=
  .map [("input", .str "$parent"), ("rest", .list [.str "$prev", .str "$parent $prev"])]

/-- An output that only begins like the name of the other one. -/
def parentOutput : Value := .str "$prev and more"

def prevOutput : Value := .num 9.0

theorem resolve_simultaneous_nested :
    Substituted parentOutput prevOutput nestedArgs
        (.map [("input", parentOutput), ("rest", .list [prevOutput, .str "$parent $prev"])]) ∧
      nestedArgs.resolve none none = nestedArgs ∧
      parentOutput.Plain ∧ prevOutput.Plain ∧
      (nestedArgs.resolve parentOutput prevOutput).resolve parentOutput prevOutput =
        nestedArgs.resolve parentOutput prevOutput ∧
      nestedArgs.resolve parentOutput prevOutput =
        (nestedArgs.resolve parentOutput none).resolve none prevOutput := by
  obtain ⟨hiff, hnone, hagain, hsteps⟩ := resolve_simultaneous nestedArgs parentOutput prevOutput
  have hparent : parentOutput.Plain := by
    constructor <;> rw [mentions_iff_of_leaf rfl] <;> simp [parentOutput, parentRef, prevRef]
  have hprev : prevOutput.Plain := by
    constructor <;> rw [mentions_iff_of_leaf rfl] <;> exact Value.noConfusion
  have hparents : ∀ u ∈ some parentOutput, u.Plain := by
    rintro _ ⟨⟩
    exact hparent
  have hprevs : ∀ u ∈ some prevOutput, u.Plain := by
    rintro _ ⟨⟩
    exact hprev
  exact ⟨(hiff _).mpr rfl, hnone, hparent, hprev, hagain hparents hprevs,
    hsteps fun u hu => (hparents u hu).prev⟩

example : (Value.list [.str "$parent", .str "$prev"]).resolve (some (.str "$prev")) (some (.str "x")) =
    .list [.str "$prev", .str "x"] := rfl

end Value

end PlanRunner
