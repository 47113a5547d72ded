import Mathlib.Data.List.Induction
import PlanRunner.Context.Project
import PlanRunner.Proofs.Run.Ledger

/-!
# PlanRunner — the project context over a history of requests

Of all requests so far only a few things count. The facts of the request are those of the latest
one, under the facts of the server. The lasting facts are those of the latest switch: the request
which named a root other than the root named before it, and after which no other root was named. The
rules are the ones that were found at the switch, also if other rules would be found by now.

* `Facts.get?_overlay` — a fact that is laid over others wins;
* `LastNamed`, `Switch` — the root named last, and the request that switched to it;
* `Recalls.apply` — what one request changes;
* `ProjectContext.after_history` — what is known after any requests, and when rules are looked up.
-/

namespace PlanRunner

-- ---------------------------------------------------------------------------
-- Facts over facts
-- ---------------------------------------------------------------------------

namespace Facts

/-- The names are in order, each of them once. -/
def Sorted (f : Facts) : Prop := SortedFields f.entries

/-- Setting a fact keeps the facts sorted. -/
theorem Sorted.set {f : Facts} (hf : f.Sorted) (key : String) (value : Value) :
    (f.set key value).Sorted :=
  SortedFields.insertField hf key value

/-- Overlaying facts keeps them sorted. -/
theorem Sorted.overlay {f : Facts} (hf : f.Sorted) (other : Facts) : (f.overlay other).Sorted := by
  unfold Facts.overlay
  induction other.entries generalizing f with
  | nil => exact hf
  | cons e rest ih => exact ih (hf.set e.1 e.2)

/-- Facts that are made of a list are sorted. -/
theorem sorted_ofList (fields : List (String × Value)) : (Facts.ofList fields).Sorted := by
  have hfold : ∀ {acc : List (String × Value)}, SortedFields acc →
      SortedFields (fields.foldl (fun acc f => insertField f.1 f.2 acc) acc) := by
    induction fields with
    | nil => exact fun hacc => hacc
    | cons e rest ih => exact fun hacc => ih (hacc.insertField e.1 e.2)
  exact hfold List.Pairwise.nil

/-- A key that does not occur has no field. -/
theorem field?_eq_none {α : Type} {key : String} {fields : List (String × α)}
    (h : key ∉ fields.map Prod.fst) : field? key fields = none := by
  induction fields with
  | nil => rfl
  | cons f rest ih =>
    rw [List.map_cons, List.mem_cons, not_or] at h
    rw [field?, if_neg (Ne.symm h.1)]
    exact ih h.2

/-- A fact that is laid over others wins. -/
theorem get?_overlay (f : Facts) {other : Facts} (hother : other.Sorted) (key : String) :
    (f.overlay other).get? key = (other.get? key).or (f.get? key) := by
  obtain ⟨entries⟩ := other
  change (entries.foldl (fun acc (e : String × Value) => acc.set e.1 e.2) f).get? key =
    (field? key entries).or (f.get? key)
  induction entries generalizing f with
  | nil => rfl
  | cons e rest ih =>
    obtain ⟨hfirst, hrest⟩ := List.pairwise_cons.mp hother
    rw [List.foldl_cons, ih (f.set e.1 e.2) hrest, field?]
    split
    · rename_i heq
      -- the names after the first are greater
      have hnone : field? key rest = none := by
        refine field?_eq_none fun hmem => ?_
        exact absurd (hfirst key hmem) (heq ▸ lt_irrefl _)
      rw [hnone, ← heq, get?_set_self]
      rfl
    · rename_i hne
      rw [get?_set_ne f e.2 (Ne.symm hne)]

/-- These facts are the ones of a request with those of the server laid over them. -/
structure Overlaid (f request server : Facts) : Prop where
  sorted : f.Sorted
  get? : ∀ key, f.get? key = (server.get? key).or (request.get? key)

end Facts

-- ---------------------------------------------------------------------------
-- Roots in a history of requests
-- ---------------------------------------------------------------------------

/-- A request, and the rules of projects as they are when it comes. -/
structure Arrival where
  rules : RulesSource
  request : Facts

namespace Arrival

/-- The request has a value for the root, and the text of it is this one and not empty. -/
def Names (a : Arrival) (root : String) : Prop :=
  ∃ v, a.request.get? projectRootKey = some v ∧ v.text = root ∧ root ≠ ""

/-- The root that is requested is the one the request names. -/
theorem requestedRoot_eq_some_iff {a : Arrival} {root : String} :
    ProjectContext.requestedRoot a.request = some root ↔ a.Names root := by
  unfold ProjectContext.requestedRoot Names
  cases a.request.get? projectRootKey with
  | none => simp
  | some v =>
    by_cases hempty : v.text = ""
    · -- the value names no root
      simp only [hempty, String.isEmpty_iff, if_true, Option.some.injEq, exists_eq_left']
      exact ⟨fun h => absurd h (by simp), fun h => absurd h.1.symm h.2⟩
    · simp only [String.isEmpty_iff, hempty, if_false, Option.some.injEq, exists_eq_left']
      exact ⟨fun h => ⟨h, h ▸ hempty⟩, fun h => h.1⟩

/-- Without a named root none is requested. -/
theorem requestedRoot_eq_none_iff {a : Arrival} :
    ProjectContext.requestedRoot a.request = none ↔ ∀ root, ¬ a.Names root := by
  rw [Option.eq_none_iff_forall_ne_some]
  exact forall_congr' fun root => not_congr requestedRoot_eq_some_iff

/-- A request names one root at most. -/
theorem Names.unique {a : Arrival} {root other : String} (h : a.Names root) (ho : a.Names other) :
    root = other :=
  Option.some.inj
    ((requestedRoot_eq_some_iff.mpr h).symm.trans (requestedRoot_eq_some_iff.mpr ho))

end Arrival

section History

variable {history : List Arrival} {a : Arrival} {root : String}

/-- Of the requests that name a root, the last one names this root. -/
def LastNamed (history : List Arrival) (root : String) : Prop :=
  ∃ before a after, history = before ++ a :: after ∧ a.Names root ∧
    ∀ b ∈ after, ∀ other, ¬ b.Names other

/-- The request that switched to a root for the last time: another root, or none, was named last
before it, and no other root was named after it. -/
def Switch (history : List Arrival) (a : Arrival) (root : String) : Prop :=
  ∃ before after, history = before ++ a :: after ∧ a.Names root ∧ ¬ LastNamed before root ∧
    ∀ b ∈ after, ∀ other, b.Names other → other = root

/-- The last root that was named is the last of those that were requested. -/
theorem lastNamed_iff :
    LastNamed history root ↔
      (history.filterMap fun a => ProjectContext.requestedRoot a.request).getLast? = some root := by
  rw [List.getLast?_filterMap, List.findSome?_eq_some_iff]
  unfold LastNamed
  constructor
  · rintro ⟨before, a, after, rfl, ha, hafter⟩
    refine ⟨after.reverse, a, before.reverse, by simp, Arrival.requestedRoot_eq_some_iff.mpr ha, ?_⟩
    intro b hb
    exact Arrival.requestedRoot_eq_none_iff.mpr (hafter b (List.mem_reverse.mp hb))
  · rintro ⟨after, a, before, heq, ha, hafter⟩
    refine ⟨before.reverse, a, after.reverse, ?_, Arrival.requestedRoot_eq_some_iff.mp ha, ?_⟩
    · rw [← List.reverse_inj, heq]
      simp
    · intro b hb
      exact Arrival.requestedRoot_eq_none_iff.mp (hafter b (List.mem_reverse.mp hb))

/-- A request that names a root names the last one. -/
theorem lastNamed_concat_of_names (ha : a.Names root) (other : String) :
    LastNamed (history ++ [a]) other ↔ root = other := by
  rw [lastNamed_iff, List.filterMap_append, List.filterMap_cons,
    Arrival.requestedRoot_eq_some_iff.mpr ha]
  simp

/-- A request that names none leaves the last one. -/
theorem lastNamed_concat_of_forall_not (ha : ∀ other, ¬ a.Names other) :
    LastNamed (history ++ [a]) root ↔ LastNamed history root := by
  rw [lastNamed_iff, lastNamed_iff, List.filterMap_append, List.filterMap_cons,
    Arrival.requestedRoot_eq_none_iff.mpr ha]
  simp

/-- Where none was ever named there is no last one. -/
theorem not_lastNamed_of_forall_not (h : ∀ a ∈ history, ∀ root, ¬ a.Names root) :
    ¬ LastNamed history root := by
  rintro ⟨before, a, after, rfl, ha, -⟩
  exact h a (by simp) root ha

/-- There is one last root at most. -/
theorem LastNamed.unique {other : String} (h : LastNamed history root)
    (ho : LastNamed history other) : root = other :=
  Option.some.inj ((lastNamed_iff.mp h).symm.trans (lastNamed_iff.mp ho))

/-- A request that names no other root than the one switched to leaves the switch where it was. -/
theorem Switch.concat {b : Arrival} (h : Switch history a root)
    (hb : ∀ other, b.Names other → other = root) : Switch (history ++ [b]) a root := by
  obtain ⟨before, after, rfl, ha, hbefore, hafter⟩ := h
  refine ⟨before, after ++ [b], by simp, ha, hbefore, ?_⟩
  rw [List.forall_mem_append, List.forall_mem_singleton]
  exact ⟨hafter, hb⟩

/-- A root stays the last one as long as no other is named. -/
theorem lastNamed_append_cons {before middle : List Arrival} (ha : a.Names root)
    (hmiddle : ∀ b ∈ middle, ∀ other, b.Names other → other = root) :
    LastNamed (before ++ a :: middle) root := by
  induction middle using List.reverseRecOn with
  | nil => exact (lastNamed_concat_of_names ha root).mpr rfl
  | append_singleton middle b ih =>
    rw [List.forall_mem_append, List.forall_mem_singleton] at hmiddle
    rw [← List.cons_append, ← List.append_assoc]
    by_cases hb : ∃ other, b.Names other
    · obtain ⟨other, hb⟩ := hb
      exact (lastNamed_concat_of_names hb root).mpr (hmiddle.2 other hb)
    · exact (lastNamed_concat_of_forall_not fun other h => hb ⟨other, h⟩).mpr (ih hmiddle.1)

/-- There is one latest switch. -/
theorem Switch.unique {b : Arrival} {other : String} (h : Switch history a root)
    (ho : Switch history b other) : a = b ∧ root = other := by
  -- of two switches the earlier one would not be the last
  have hlater : ∀ {a b : Arrival} {root other : String} {before middle after : List Arrival},
      a.Names root → b.Names other → ¬ LastNamed (before ++ a :: middle) other →
      (∀ c ∈ middle ++ b :: after, ∀ name, c.Names name → name = root) → False := by
    intro a b root other before middle after ha hb hnew hquiet
    rw [List.forall_mem_append, List.forall_mem_cons] at hquiet
    obtain rfl := hquiet.2.1 other hb
    exact hnew (lastNamed_append_cons ha hquiet.1)
  obtain ⟨before, after, rfl, ha, hnew, hquiet⟩ := h
  obtain ⟨before', after', heq, hb, hnew', hquiet'⟩ := ho
  rcases List.append_eq_append_iff.mp heq with ⟨middle, rfl, htail⟩ | ⟨middle, rfl, htail⟩
  · cases middle with
    | nil =>
      obtain ⟨rfl, -⟩ := List.cons.inj htail
      exact ⟨rfl, Arrival.Names.unique ha hb⟩
    | cons c middle =>
      obtain ⟨rfl, rfl⟩ := List.cons.inj htail
      exact (hlater ha hb hnew' hquiet).elim
  · cases middle with
    | nil =>
      obtain ⟨rfl, -⟩ := List.cons.inj htail
      exact ⟨rfl, Arrival.Names.unique ha hb⟩
    | cons c middle =>
      obtain ⟨rfl, rfl⟩ := List.cons.inj htail
      exact (hlater hb ha hnew hquiet').elim

end History

-- ---------------------------------------------------------------------------
-- What is known after a history
-- ---------------------------------------------------------------------------

namespace ProjectContext

/-- What is known after some requests, the first of which is the first of all. -/
def after (server : Facts) (history : List Arrival) : ProjectContext :=
  history.foldl (fun c a => (c.apply a.rules a.request).2) (start server)

/-- Another request is applied to what the requests before it have left. -/
theorem after_concat (server : Facts) (history : List Arrival) (a : Arrival) :
    after server (history ++ [a]) = ((after server history).apply a.rules a.request).2 := by
  rw [after, List.foldl_append]
  rfl

/-- The lasting facts are those of a project: its root, and its rules if it has any. -/
def Describes (lasting : Facts) (root : String) (rules : Option String) : Prop :=
  lasting.entries = (projectRootKey, .str root) ::
    (rules.map fun text => (projectRulesKey, Value.str text)).toList

/-- The facts of a root describe it, with its rules if it has any. -/
theorem describes_factsOf (rules : RulesSource) (root : String) :
    Describes (factsOf rules root) root (rules root) := by
  unfold Describes factsOf
  cases rules root with
  | none => rfl
  | some text => rfl

/-- The root can be told from its facts. -/
theorem root_factsOf (c : ProjectContext) (rules : RulesSource) (root : String)
    (h : c.lasting = factsOf rules root) : c.root = some root := by
  unfold ProjectContext.root Facts.get?
  rw [h, describes_factsOf rules root]
  rfl

/-- What is known goes back to the requests so far: the lasting facts to the latest switch. -/
structure Recalls (c : ProjectContext) (server : Facts) (history : List Arrival) : Prop where
  server : c.server = server
  root : ∀ root, c.root = some root ↔ LastNamed history root
  lasting : (∀ a ∈ history, ∀ root, ¬ a.Names root) ∧ c.lasting = .empty ∨
    ∃ a root, Switch history a root ∧ LastNamed history root ∧
      Describes c.lasting root (a.rules root)

/-- Before the first request nothing lasts but what the server says. -/
theorem Recalls.start (server : Facts) : Recalls (.start server) server [] where
  server := rfl
  root root := ⟨fun h => absurd h (by simp [ProjectContext.root, ProjectContext.start, Facts.get?,
    Facts.empty, field?]), fun h => absurd h (not_lastNamed_of_forall_not (by simp))⟩
  lasting := .inl ⟨by simp, rfl⟩

section Apply

variable {c : ProjectContext} {server : Facts} {history : List Arrival}

/-- A request that switches to a root has its rules looked up. -/
theorem apply_of_switch (h : c.Recalls server history) {a : Arrival} {root : String}
    (ha : a.Names root) (hnew : ¬ LastNamed history root) :
    c.apply a.rules a.request = (true, { c with
      request := a.request.overlay c.server
      lasting := factsOf a.rules root
      lookups := c.lookups ++ [root] }) := by
  have hroot : c.root ≠ some root := fun heq => hnew ((h.root root).mp heq)
  unfold ProjectContext.apply
  rw [Arrival.requestedRoot_eq_some_iff.mpr ha]
  exact if_neg hroot

/-- Any other request leaves the lasting facts as they are. -/
theorem apply_of_no_switch (h : c.Recalls server history) {a : Arrival}
    (ha : ∀ root, a.Names root → LastNamed history root) :
    c.apply a.rules a.request = (false, { c with request := a.request.overlay c.server }) := by
  unfold ProjectContext.apply
  cases hroot : requestedRoot a.request with
  | none => rfl
  | some root =>
    have hsame := (h.root root).mpr (ha root (Arrival.requestedRoot_eq_some_iff.mp hroot))
    exact if_pos hsame

/-- A request leaves what the history with it asks for. -/
theorem Recalls.apply (h : c.Recalls server history) (a : Arrival) :
    (c.apply a.rules a.request).2.Recalls server (history ++ [a]) := by
  -- the request switches to another root, or it names the one there is, or none
  by_cases hswitch : ∃ root, a.Names root ∧ ¬ LastNamed history root
  · obtain ⟨root, ha, hnew⟩ := hswitch
    rw [apply_of_switch h ha hnew]
    have hnamed : LastNamed (history ++ [a]) root := (lastNamed_concat_of_names ha root).mpr rfl
    refine ⟨h.server, fun other => ?_, .inr ⟨a, root, ?_, hnamed, describes_factsOf _ _⟩⟩
    · rw [lastNamed_concat_of_names ha, root_factsOf _ a.rules root rfl, Option.some.injEq]
    · exact ⟨history, [], rfl, ha, hnew, by simp⟩
  · have hold : ∀ root, a.Names root → LastNamed history root := fun root ha =>
      not_not.mp fun hnew => hswitch ⟨root, ha, hnew⟩
    have hsame : ∀ root, LastNamed (history ++ [a]) root ↔ LastNamed history root := by
      intro root
      by_cases hnames : ∃ other, a.Names other
      · obtain ⟨other, ha⟩ := hnames
        rw [lastNamed_concat_of_names ha]
        have hother := hold other ha
        exact ⟨fun heq => heq ▸ hother, hother.unique⟩
      · exact lastNamed_concat_of_forall_not fun other ha => hnames ⟨other, ha⟩
    rw [apply_of_no_switch h hold]
    refine ⟨h.server, fun root => (h.root root).trans (hsame root).symm, ?_⟩
    rcases h.lasting with ⟨hnone, hempty⟩ | ⟨b, root, hb, hroot, hfacts⟩
    · refine .inl ⟨?_, hempty⟩
      rw [List.forall_mem_append, List.forall_mem_singleton]
      exact ⟨hnone, fun root ha => not_lastNamed_of_forall_not hnone (hold root ha)⟩
    · have hquiet : ∀ other, a.Names other → other = root := fun other ha =>
        (hold other ha).unique hroot
      exact .inr ⟨b, root, hb.concat hquiet, (hsame root).mpr hroot, hfacts⟩

end Apply

/-- The facts of a request are overlaid with those of the server. -/
theorem request_apply (c : ProjectContext) (rules : RulesSource) (request : Facts) :
    (c.apply rules request).2.request = request.overlay c.server := by
  unfold ProjectContext.apply
  dsimp only
  split
  · split
    · rfl
    · rfl
  · rfl

/-- After any history what lasts is what its last switch has brought. -/
theorem recalls_after (server : Facts) (history : List Arrival) :
    (after server history).Recalls server history := by
  induction history using List.reverseRecOn with
  | nil => exact .start server
  | append_singleton history a ih =>
    rw [after_concat]
    exact ih.apply a

/-- The facts of the request are those of the latest one, and facts of the server win. -/
theorem overlaid_after {server : Facts} (hserver : server.Sorted) (history : List Arrival)
    {next : Arrival} (hnext : next.request.Sorted) :
    (after server (history ++ [next])).request.Overlaid next.request server := by
  rw [after_concat, request_apply, (recalls_after server history).server]
  exact ⟨hnext.overlay server, Facts.get?_overlay next.request hserver⟩

/-- **What is known after any requests.** The facts of the request are those of the latest one with
the facts of the server laid over them. The lasting facts are none if no request named a root;
otherwise they are the root named last and the rules found when it was switched to for the last
time. A further request makes the lasting facts be rebuilt, and has the rules of its root looked up
once, if and only if it names a root other than the one named last. -/
theorem after_history {server : Facts} (hserver : server.Sorted) (history : List Arrival)
    (next : Arrival) (hnext : next.request.Sorted) :
    (after server (history ++ [next])).request.Overlaid next.request server ∧
      ((∀ a ∈ history, ∀ root, ¬ a.Names root) → (after server history).lasting = .empty) ∧
      ((∃ a ∈ history, ∃ root, a.Names root) → ∃ a root, Switch history a root) ∧
      (∀ a root, Switch history a root → LastNamed history root ∧
        Describes (after server history).lasting root (a.rules root)) ∧
      (((after server history).apply next.rules next.request).1 = true ↔
        ∃ root, next.Names root ∧ ¬ LastNamed history root) ∧
      (∀ root, next.Names root → ¬ LastNamed history root →
        (after server (history ++ [next])).lookups = (after server history).lookups ++ [root] ∧
          (after server (history ++ [next])).refreshes = (after server history).refreshes + 1) ∧
      ((∀ root, next.Names root → LastNamed history root) →
        (after server (history ++ [next])).lookups = (after server history).lookups ∧
          (after server (history ++ [next])).refreshes = (after server history).refreshes) := by
  have hrecalls := recalls_after server history
  -- every clause is read off what the history has left
  refine ⟨overlaid_after hserver history hnext, fun hnone => ?_, ?_, ?_, ⟨fun hanswer => ?_, ?_⟩,
    ?_, ?_⟩
  · rcases hrecalls.lasting with ⟨-, hempty⟩ | ⟨_, _, -, hlast, -⟩
    · exact hempty
    · exact absurd hlast (not_lastNamed_of_forall_not hnone)
  · rintro ⟨a, ha, root, hroot⟩
    rcases hrecalls.lasting with ⟨hnone, -⟩ | ⟨b, other, hswitch, -⟩
    · exact absurd hroot (hnone a ha root)
    · exact ⟨b, other, hswitch⟩
  · intro a root hswitch
    rcases hrecalls.lasting with ⟨hnone, -⟩ | ⟨b, other, hb, hlast, hfacts⟩
    · obtain ⟨before, after, rfl, ha, -⟩ := hswitch
      exact absurd ha (hnone a (by simp) root)
    · obtain ⟨rfl, rfl⟩ := hswitch.unique hb
      exact ⟨hlast, hfacts⟩
  · by_contra hnone
    have hold : ∀ root, next.Names root → LastNamed history root := fun root hroot =>
      not_not.mp fun hnew => hnone ⟨root, hroot, hnew⟩
    rw [apply_of_no_switch hrecalls hold] at hanswer
    exact Bool.false_ne_true hanswer
  · rintro ⟨root, hroot, hnew⟩
    rw [apply_of_switch hrecalls hroot hnew]
  · intro root hroot hnew
    rw [after_concat, apply_of_switch hrecalls hroot hnew]
    exact ⟨rfl, List.length_append⟩
  · intro hold
    rw [after_concat, apply_of_no_switch hrecalls hold]
    exact ⟨rfl, rfl⟩

/-- A root, another one, the first one again with other rules, and a request that names none. -/
def returning : List Arrival :=
  [⟨fun _ => some "first", .ofList [("cwd", .str "/tmp"), ("projectRoot", .str "/a")]⟩,
    ⟨fun _ => none, .ofList [("projectRoot", .list [.str "/b", .num 7]), ("user", .str "sam")]⟩,
    ⟨fun _ => some "second", .ofList [("projectRoot", .str "/a")]⟩,
    ⟨fun _ => some "third", .ofList [("projectRoot", .str "")]⟩]

theorem after_history_returning :
    let server : Facts := .ofList [("cwd", .str "/srv"), ("host", .num 1)]
    let next : Arrival :=
      ⟨fun _ => some "fourth", .ofList [("host", .str "spoofed"), ("projectRoot", .str "/b")]⟩
    server.Sorted ∧ next.request.Sorted ∧
      (after server (returning ++ [next])).request.Overlaid next.request server ∧
      LastNamed returning "/a" ∧
      Describes (after server returning).lasting "/a" (some "second") ∧
      ((after server returning).apply next.rules next.request).1 = true ∧
      (after server (returning ++ [next])).refreshes = (after server returning).refreshes + 1 := by
  intro server next
  have hserver : server.Sorted := Facts.sorted_ofList _
  have hnext : next.request.Sorted := Facts.sorted_ofList _
  obtain ⟨hrequest, -, -, hswitch, hanswer, hlookup, -⟩ := after_history hserver returning next hnext
  have hbefore : ¬ LastNamed (returning.take 2) "/a" := by
    rw [lastNamed_iff]
    decide +kernel
  have hlast : ¬ LastNamed returning "/b" := by
    rw [lastNamed_iff]
    decide +kernel
  have hnamed : next.Names "/b" := ⟨.str "/b", rfl, rfl, by decide⟩
  obtain ⟨hroot, hfacts⟩ := hswitch returning[2] "/a"
    ⟨returning.take 2, returning.drop 3, rfl, ⟨.str "/a", rfl, rfl, by decide⟩, hbefore, by
      rw [returning, List.drop_succ_cons, List.drop_succ_cons, List.drop_succ_cons,
        List.drop_zero, List.forall_mem_singleton]
      exact fun other hother => absurd (Arrival.requestedRoot_eq_some_iff.mpr hother) nofun⟩
  exact ⟨hserver, hnext, hrequest, hroot, hfacts, hanswer.mpr ⟨"/b", hnamed, hlast⟩,
    (hlookup "/b" hnamed hlast).2⟩

end ProjectContext

end PlanRunner
