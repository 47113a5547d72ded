import Mathlib.Tactic.Tauto
import PlanRunner.Proofs.Run.Evaluation
import PlanRunner.Proofs.Run.Interleaving

/-!
# PlanRunner — the order of steps does not matter

Every part of a forest has a future: the outcomes it will still bring about if the
layers compute what they are said to compute. A step moves outcomes from the future
into the ledger and never changes what is in the two together, whichever part takes
it. So all orders of steps end with the ledger of the plan evaluated in order.

The argument covers walks that start with outcomes of an earlier attempt: these have
to be outcomes of the plan, and then they are met again instead of brought about.

* `Walk.future` — the outcomes that are still to come;
* `Walk.Effect` — what one step does, and `Walk.Move.effect` that every step does so;
* `Traversal.Faithful` — the invariant: recorded and future outcomes together are the
  outcomes of the plan;
* `Traversal.Faithful.agrees` — a forest that is done has the ledger of the plan
  evaluated in order;
* `Traversal.schedule_independence` — all of it for a ledger without outcomes.
-/

namespace PlanRunner

namespace Walk

-- ---------------------------------------------------------------------------
-- What is still to come
-- ---------------------------------------------------------------------------

mutual

/-- The ids of the nodes whose calls are in flight. -/
def calls : Walk → List String
  | .calling node _ => [node.id]
  | .group _ members => callsAll members
  | .chain _ current _ => current.calls
  | .fresh _ _ _ => []
  | .queued _ _ _ _ => []
  | .done _ => []

def callsAll : List Walk → List String
  | [] => []
  | w :: ws => w.calls ++ callsAll ws

end

mutual

/-- The ids of the nodes that wait to be called. -/
def waits : Walk → List String
  | .queued node _ _ _ => [node.id]
  | .group _ members => waitsAll members
  | .chain _ current _ => current.waits
  | .fresh _ _ _ => []
  | .calling _ _ => []
  | .done _ => []

def waitsAll : List Walk → List String
  | [] => []
  | w :: ws => w.waits ++ waitsAll ws

end

/-- The output a walk will have. -/
def output (call : Semantics) : Walk → Option Value
  | .fresh node parent prev => (node.outcome call parent prev).toOption
  | .queued node parent prev _ => (node.outcome call parent prev).toOption
  | .calling _ c => c.outcome.toOption
  | .group output _ => some output
  | .chain output _ _ => some output
  | .done output => output

mutual

/-- The outcomes a walk will still bring about, or meet again. -/
def future (call : Semantics) : Walk → List (String × Fragment)
  | .fresh node parent prev => node.evaluate call parent prev
  | .queued node parent prev _ => node.evaluate call parent prev
  | .calling node c => node.evaluateAfter call c.outcome
  | .group _ members => futureAll call members
  | .chain output current later =>
    current.future call ++ Node.evaluateChain call (some output) (current.output call) later
  | .done _ => []

def futureAll (call : Semantics) : List Walk → List (String × Fragment)
  | [] => []
  | w :: ws => w.future call ++ futureAll call ws

end

section Lists

variable (call : Semantics) (ws vs : List Walk)

theorem callsAll_append : callsAll (ws ++ vs) = callsAll ws ++ callsAll vs := by
  induction ws with
  | nil => rfl
  | cons w ws ih => simp only [List.cons_append, callsAll, ih, List.append_assoc]

theorem waitsAll_append : waitsAll (ws ++ vs) = waitsAll ws ++ waitsAll vs := by
  induction ws with
  | nil => rfl
  | cons w ws ih => simp only [List.cons_append, waitsAll, ih, List.append_assoc]

theorem futureAll_append : futureAll call (ws ++ vs) = futureAll call ws ++ futureAll call vs := by
  induction ws with
  | nil => rfl
  | cons w ws ih => simp only [List.cons_append, futureAll, ih, List.append_assoc]

end Lists

mutual

/-- The calls in flight are of nodes that the walk stands for. -/
theorem calls_sublist : ∀ (w : Walk), w.calls.Sublist w.ids
  | .fresh _ _ _ => List.nil_sublist _
  | .queued _ _ _ _ => List.nil_sublist _
  | .calling node _ => by
    rw [calls, ids, Node.ids_eq]
    exact (List.nil_sublist _).cons_cons _
  | .group _ members => callsAll_sublist members
  | .chain _ current _ => (calls_sublist current).trans (List.sublist_append_left _ _)
  | .done _ => List.Sublist.refl _

theorem callsAll_sublist : ∀ (ws : List Walk), (callsAll ws).Sublist (idsAll ws)
  | [] => List.Sublist.refl _
  | w :: ws => (calls_sublist w).append (callsAll_sublist ws)

end

mutual

/-- So are the nodes it waits with. -/
theorem waits_sublist : ∀ (w : Walk), w.waits.Sublist w.ids
  | .fresh _ _ _ => List.nil_sublist _
  | .calling _ _ => List.nil_sublist _
  | .queued node _ _ _ => by
    rw [waits, ids, Node.ids_eq]
    exact (List.nil_sublist _).cons_cons _
  | .group _ members => waitsAll_sublist members
  | .chain _ current _ => (waits_sublist current).trans (List.sublist_append_left _ _)
  | .done _ => List.Sublist.refl _

theorem waitsAll_sublist : ∀ (ws : List Walk), (waitsAll ws).Sublist (idsAll ws)
  | [] => List.Sublist.refl _
  | w :: ws => (waits_sublist w).append (waitsAll_sublist ws)

end

mutual

/-- The future of a walk is about the nodes it may still touch. -/
theorem future_ids (call : Semantics) :
    ∀ (w : Walk), ((w.future call).map Prod.fst).Sublist w.ids
  | .fresh node parent prev => Node.evaluate_ids call parent prev node
  | .queued node parent prev _ => Node.evaluate_ids call parent prev node
  | .calling node c => Node.evaluateAfter_ids call node c.outcome
  | .group _ members => futureAll_ids call members
  | .chain output current later => by
    rw [future, ids, List.map_append]
    exact (future_ids call current).append (Node.evaluateChain_ids call _ _ later)
  | .done _ => List.Sublist.refl _

/-- What is still to come of a walk is about its own nodes. -/
theorem futureAll_ids (call : Semantics) :
    ∀ (ws : List Walk), ((futureAll call ws).map Prod.fst).Sublist (idsAll ws)
  | [] => List.Sublist.refl _
  | w :: ws => by
    rw [futureAll, idsAll, List.map_append]
    exact (future_ids call w).append (futureAll_ids call ws)

end

-- ---------------------------------------------------------------------------
-- Closing groups and chains changes nothing that is still to come
-- ---------------------------------------------------------------------------

theorem callsAll_fresh (parent : Option Value) (nodes : List Node) :
    callsAll (nodes.map fun n => .fresh n parent none) = [] := by
  induction nodes with
  | nil => rfl
  | cons n ns ih => simp only [List.map_cons, callsAll, calls, ih, List.append_nil]

theorem waitsAll_fresh (parent : Option Value) (nodes : List Node) :
    waitsAll (nodes.map fun n => .fresh n parent none) = [] := by
  induction nodes with
  | nil => rfl
  | cons n ns ih => simp only [List.map_cons, waitsAll, waits, ih, List.append_nil]

theorem futureAll_fresh (call : Semantics) (parent : Option Value) (nodes : List Node) :
    futureAll call (nodes.map fun n => .fresh n parent none) =
      Node.evaluateGroup call parent nodes := by
  induction nodes with
  | nil => rfl
  | cons n ns ih => simp only [List.map_cons, futureAll, future, ih, Node.evaluateGroup]

/-- Two walks with the same prospects: neither calls or brings about anything that the
other does not. -/
structure Alike (call : Semantics) (v w : Walk) : Prop where
  calls : v.calls = w.calls
  waits : v.waits = w.waits
  output : v.output call = w.output call
  future : v.future call = w.future call

theorem eq_done_of_isDone {w : Walk} (h : w.isDone = true) : ∃ output, w = .done output := by
  cases w with
  | done output => exact ⟨output, rfl⟩
  | _ => simp [isDone] at h

/-- Nothing is left of walks that are done. -/
theorem all_done_nil (call : Semantics) {ws : List Walk} (h : ws.all isDone = true) :
    callsAll ws = [] ∧ waitsAll ws = [] ∧ futureAll call ws = [] := by
  induction ws with
  | nil => exact ⟨rfl, rfl, rfl⟩
  | cons w ws ih =>
    rw [List.all_cons, Bool.and_eq_true] at h
    obtain ⟨output, rfl⟩ := eq_done_of_isDone h.1
    obtain ⟨hcalls, hwaits, hfuture⟩ := ih h.2
    simp [callsAll, calls, waitsAll, waits, futureAll, future, hcalls, hwaits, hfuture]

/-- Closing a group loses nothing: it is done only when its members are, and those have nothing
left. -/
theorem closeGroup_alike (call : Semantics) (output : Value) (members : List Walk) :
    Alike call (closeGroup output members) (.group output members) := by
  unfold closeGroup
  split
  · rename_i hdone
    obtain ⟨hcalls, hwaits, hfuture⟩ := all_done_nil call hdone
    exact ⟨hcalls.symm, hwaits.symm, rfl, hfuture.symm⟩
  · exact ⟨rfl, rfl, rfl, rfl⟩

/-- The next part of a chain has all later children ahead of it. -/
theorem nextInChain_alike (call : Semantics) (output : Value) (prev : Option Value)
    (nodes : List Node) :
    Alike call (nextInChain false output prev nodes) (.chain output (.done prev) nodes) := by
  cases nodes with
  | nil => exact ⟨rfl, rfl, rfl, rfl⟩
  | cons n ns => exact ⟨rfl, rfl, rfl, rfl⟩

/-- Nor does closing a chain: what is left of it is in the nodes that come later. -/
theorem closeChain_alike (call : Semantics) (output : Value) (current : Walk) (later : List Node) :
    Alike call (closeChain false output current later) (.chain output current later) := by
  unfold closeChain
  split
  · exact nextInChain_alike call output _ later
  · exact ⟨rfl, rfl, rfl, rfl⟩

/-- Below a completed node the future is that of its children. -/
theorem descend_alike (call : Semantics) (node : Node) (value : Value) :
    (descend false node value).calls = [] ∧ (descend false node value).waits = [] ∧
      (descend false node value).output call = some value ∧
      (descend false node value).future call = node.evaluateChildren call value := by
  unfold descend Node.evaluateChildren
  split
  · rename_i hnil
    rw [List.isEmpty_iff] at hnil
    rw [hnil]
    exact ⟨rfl, rfl, rfl, (ite_self _).symm⟩
  · split
    · exact ⟨callsAll_fresh _ _, waitsAll_fresh _ _, rfl, futureAll_fresh call _ _⟩
    · have h := nextInChain_alike call value none node.children
      exact ⟨h.calls, h.waits, h.output, h.future⟩

-- ---------------------------------------------------------------------------
-- What one step does
-- ---------------------------------------------------------------------------

/-- What the parts of a forest rely on: no two of them touch the same node; of their
nodes just those are running which they call; a node that waits has no outcome; and a
recorded outcome of a node is the one that they would bring about. -/
structure Fits (call : Semantics) (l : Ledger) (ws : List Walk) : Prop where
  distinct : (idsAll ws).Nodup
  running : ∀ {id}, id ∈ idsAll ws → (id ∈ l.running ↔ id ∈ callsAll ws)
  waiting : ∀ {id}, id ∈ waitsAll ws → ∀ f, (id, f) ∉ l.fragments
  agreeing : ∀ {id f g}, (id, f) ∈ futureAll call ws → (id, g) ∈ l.fragments → g = f

/-- What a step does to some parts of a forest and to the ledger. The outcomes in `met`
leave the future; afterwards the ledger has them and what it had before, and nothing
else. Calls in flight and running nodes change together. -/
structure Effect (call : Semantics) (l l' : Ledger) (ws ws' : List Walk)
    (met : List (String × Fragment)) : Prop where
  orderly : l'.Orderly ∅
  total : l'.total = l.total
  calls : ∀ id, List.count id (callsAll ws') + List.count id l.running =
    List.count id (callsAll ws) + List.count id l'.running
  waiting : ∀ {id}, id ∈ waitsAll ws' → ∀ f, (id, f) ∉ l'.fragments
  future : ∀ f, f ∈ futureAll call ws ↔ f ∈ met ∨ f ∈ futureAll call ws'
  recorded : ∀ {f}, f ∈ met → f ∈ l'.fragments
  kept : ∀ {f}, f ∈ l.fragments → f ∈ l'.fragments
  gained : ∀ {f}, f ∈ l'.fragments → f ∈ l.fragments ∨ f ∈ met

section Context

variable {call : Semantics} {l l' : Ledger} {w w' : Walk} {before after : List Walk}
  {met : List (String × Fragment)} {output : Value}

theorem idsAll_cons_append : idsAll (before ++ w :: after) = idsAll before ++ (w.ids ++ idsAll after) := by
  rw [idsAll_append]
  rfl

/-- A node of one part of a forest is called only by that part. -/
theorem mem_calls_of_mem_callsAll (hd : (idsAll (before ++ w :: after)).Nodup) {id : String}
    (hid : id ∈ w.ids) (hcall : id ∈ callsAll (before ++ w :: after)) : id ∈ w.calls := by
  rw [idsAll_cons_append, List.nodup_append] at hd
  obtain ⟨-, hw, hbefore⟩ := hd
  rw [List.nodup_append] at hw
  rw [callsAll_append, callsAll, List.mem_append, List.mem_append] at hcall
  -- a call of another part would have its id twice in the forest
  rcases hcall with hcall | hcall | hcall
  · exact absurd rfl (hbefore id ((callsAll_sublist before).subset hcall) id
      (List.mem_append_left _ hid))
  · exact hcall
  · exact absurd rfl (hw.2.2 id hid id ((callsAll_sublist after).subset hcall))

/-- A part of a forest that fits its ledger fits it too. -/
theorem Fits.part (h : Fits call l (before ++ w :: after)) : Fits call l [w] where
  distinct := by
    have hd := h.distinct
    rw [idsAll_cons_append] at hd
    simpa [idsAll] using (List.nodup_append.mp (List.nodup_append.mp hd).2.1).1
  running := by
    intro id hid
    have hw : id ∈ w.ids := by simpa [idsAll] using hid
    rw [h.running (by rw [idsAll_cons_append]; simp [hw])]
    simp only [callsAll, List.append_nil]
    refine ⟨mem_calls_of_mem_callsAll h.distinct hw, fun hcall => ?_⟩
    rw [callsAll_append, callsAll]
    simp [hcall]
  waiting := by
    intro id hid
    refine h.waiting ?_
    rw [waitsAll_append, waitsAll]
    simp only [waitsAll, List.append_nil] at hid
    simp [hid]
  agreeing := by
    intro id f g hf
    refine h.agreeing ?_
    rw [futureAll_append, futureAll]
    simp only [futureAll, List.append_nil] at hf
    simp [hf]

/-- A step of one part does to the forest what it does to the part. -/
theorem Effect.whole (h : Effect call l l' [w] [w'] met) (hfits : Fits call l (before ++ w :: after)) :
    Effect call l l' (before ++ w :: after) (before ++ w' :: after) met := by
  refine ⟨h.orderly, h.total, ?_, ?_, ?_, h.recorded, h.kept, h.gained⟩
  · -- the other parts call on both sides what they called before
    intro id
    have hcalls := h.calls id
    simp only [callsAll_append, callsAll, List.append_nil, List.count_append] at hcalls ⊢
    omega
  · intro id hid f hf
    -- a new outcome is one of `w`, whose nodes no other part waits for
    have hother : id ∈ waitsAll (before ++ w :: after) → id ∉ w.ids → False := by
      intro hwait hw
      rcases h.gained hf with hf | hf
      · exact hfits.waiting hwait f hf
      · have hfuture : (id, f) ∈ w.future call := by
          simpa only [futureAll, List.append_nil] using (h.future (id, f)).mpr (.inl hf)
        exact hw ((future_ids call w).subset (List.mem_map.mpr ⟨_, hfuture, rfl⟩))
    have hd := hfits.distinct
    rw [idsAll_cons_append, List.nodup_append, List.nodup_append] at hd
    obtain ⟨-, ⟨-, -, hafter⟩, hbefore⟩ := hd
    rw [waitsAll_append, waitsAll, List.mem_append, List.mem_append] at hid
    rcases hid with hid | hid | hid
    · refine hother (by rw [waitsAll_append]; simp [hid]) fun hw => ?_
      exact hbefore id ((waitsAll_sublist before).subset hid) id (List.mem_append_left _ hw) rfl
    · exact h.waiting (by simpa only [waitsAll, List.append_nil] using hid) f hf
    · refine hother (by rw [waitsAll_append, waitsAll]; simp [hid]) fun hw => ?_
      exact hafter id hw id ((waitsAll_sublist after).subset hid) rfl
  · intro f
    have hfuture := h.future f
    simp only [futureAll_append, futureAll, List.append_nil, List.mem_append] at hfuture ⊢
    rw [hfuture]
    exact ⟨by tauto, by tauto⟩

theorem Fits.members (h : Fits call l [.group output before]) : Fits call l before where
  distinct := by simpa [idsAll, ids] using h.distinct
  running := by simpa [idsAll, ids, callsAll, Walk.calls] using @h.running
  waiting := by simpa [waitsAll, waits] using @h.waiting
  agreeing := by simpa [futureAll, Walk.future] using @h.agreeing

/-- The current part of a chain fits, and so do the members of a group. -/
theorem Fits.current {later : List Node} (h : Fits call l [.chain output w later]) :
    Fits call l [w] where
  distinct := by
    have hd := h.distinct
    simp only [idsAll, ids, List.append_nil] at hd ⊢
    exact (List.nodup_append.mp hd).1
  running := by
    intro id hid
    have hrunning := @Fits.running _ _ _ h id
    simp only [idsAll, ids, callsAll, Walk.calls, List.append_nil, List.mem_append] at hid hrunning ⊢
    exact hrunning (.inl hid)
  waiting := by simpa [waitsAll, waits] using @h.waiting
  agreeing := by
    intro id f g hf
    refine h.agreeing ?_
    simp only [futureAll, Walk.future, List.append_nil, List.mem_append] at hf ⊢
    exact .inl hf

theorem Effect.members {before' : List Walk} (h : Effect call l l' before before' met) :
    Effect call l l' [.group output before] [.group output before'] met where
  orderly := h.orderly
  total := h.total
  calls := by simpa [callsAll, Walk.calls] using h.calls
  waiting := by simpa [waitsAll, waits] using @h.waiting
  future := by simpa [futureAll, Walk.future] using h.future
  recorded := h.recorded
  kept := h.kept
  gained := h.gained

/-- Whether the current child of a chain makes a step is nothing to the later ones, as
long as its output stays the same. -/
theorem Effect.current {later : List Node} (h : Effect call l l' [w] [w'] met)
    (houtput : w'.output call = w.output call) :
    Effect call l l' [.chain output w later] [.chain output w' later] met where
  orderly := h.orderly
  total := h.total
  calls := by simpa [callsAll, Walk.calls] using h.calls
  waiting := by simpa [waitsAll, waits] using @h.waiting
  future := by
    intro f
    have hfuture := h.future f
    simp only [futureAll, Walk.future, List.append_nil, List.mem_append, houtput] at hfuture ⊢
    rw [hfuture]
    exact or_assoc
  recorded := h.recorded
  kept := h.kept
  gained := h.gained

/-- What a part does may be told of any walk that has as much in flight and as much to come. -/
theorem Effect.alike {ws : List Walk} {v : Walk} (h : Effect call l l' ws [v] met)
    (hv : Alike call w v) : Effect call l l' ws [w] met where
  orderly := h.orderly
  total := h.total
  calls := by simpa [callsAll, hv.calls] using h.calls
  waiting := by simpa [waitsAll, hv.waits] using @h.waiting
  future := by simpa [futureAll, hv.future] using h.future
  recorded := h.recorded
  kept := h.kept
  gained := h.gained

end Context

section Steps

variable {σ : Type} {d : Dispatch σ} {call : Semantics} {sh : Shared σ} {node : Node}
  {parent prev : Option Value}

/-- The call of a node that starts comes to what it is said to compute. -/
theorem launch_spec (parent prev : Option Value) (hcall : d.registry.Computes call)
    (hcancel : sh.cancelledAt = none) {l' : Ledger}
    (hmark : sh.ledger.markRunning node.id = some l') :
    ∃ c : Call, (launch d sh node parent prev).1 = .calling node c ∧
      c.outcome = node.outcome call parent prev ∧ (launch d sh node parent prev).2.ledger = l' := by
  unfold launch
  simp only [Shared.cancelled, hcancel, hmark, Option.isSome_none, Bool.false_eq_true, if_false]
  exact ⟨_, rfl, hcall _ _ _ _, rfl⟩

/-- Starting a pending node puts it among the running ones and its call in flight; nothing is
recorded and the future is what it was. -/
theorem launch_effect (hcall : d.registry.Computes call) (hcancel : sh.cancelledAt = none)
    (hl : sh.ledger.Orderly ∅) (hpending : sh.ledger.status node.id = .pending) :
    Effect call sh.ledger (launch d sh node parent prev).2.ledger [.fresh node parent prev]
        [(launch d sh node parent prev).1] [] ∧
      (launch d sh node parent prev).1.output call = (node.outcome call parent prev).toOption := by
  obtain ⟨hc, hf, hr⟩ := Ledger.status_eq_pending_iff.mp hpending
  have hmark := Ledger.markRunning_eq_some_iff.mpr ⟨hc, hf, hr, rfl⟩
  obtain ⟨c, hwalk, houtcome, hledger⟩ := launch_spec parent prev hcall hcancel hmark
  rw [hwalk, hledger]
  refine ⟨⟨hl.markRunning (Set.notMem_empty _) hmark, rfl, ?_, ?_, ?_, ?_, id, .inl⟩,
    congrArg Except.toOption houtcome⟩
  · -- the node joins the calls in flight and the running nodes, both once
    intro id
    simp only [callsAll, calls, List.append_nil]
    rw [(IdSet.insert_perm hr).count_eq, List.count_nil, List.count_cons, List.count_cons,
      List.count_nil]
    omega
  · simp [waitsAll, waits]
  · intro f
    simp [futureAll, future, Node.evaluate_eq, houtcome]
  · simp

theorem settle_ledger (sh : Shared σ) (node : Node) (outcome : Except LayerError Value) :
    (settle sh node outcome).2.ledger =
      (sh.ledger.log (logLine node outcome)).enter node.id (.ofOutcome outcome) := by
  unfold settle
  cases outcome <;> rfl

/-- Without a cancellation the end of a call leads on to the children, or nowhere. -/
theorem settle_walk (hcancel : sh.cancelledAt = none) (outcome : Except LayerError Value) :
    (settle sh node outcome).1 =
      match outcome with
      | .ok value => descend false node value
      | .error _ => .done none := by
  unfold settle
  cases outcome with
  | ok value => simp [Shared.cancelled, Shared.announce, hcancel]
  | error e => rfl

/-- The end of a call takes the node out of the running ones, records its outcome, and leaves the
future of its children. -/
theorem settle_effect {c : Call} (hcancel : sh.cancelledAt = none) (hl : sh.ledger.Orderly ∅)
    (hrunning : node.id ∈ sh.ledger.running) :
    Effect call sh.ledger (settle sh node c.outcome).2.ledger [.calling node c]
        [(settle sh node c.outcome).1] [(node.id, .ofOutcome c.outcome)] ∧
      (settle sh node c.outcome).1.output call = c.outcome.toOption := by
  have hlog := hl.log (logLine node c.outcome)
  -- what comes next has neither calls nor waiting nodes yet, and brings about what is below
  -- the node; the outcome of the node itself is the one that leaves the future
  have hbelow : (settle sh node c.outcome).1.calls = [] ∧ (settle sh node c.outcome).1.waits = [] ∧
      (settle sh node c.outcome).1.output call = c.outcome.toOption ∧
      (node.evaluateAfter call c.outcome) =
        (node.id, .ofOutcome c.outcome) :: (settle sh node c.outcome).1.future call := by
    rw [settle_walk hcancel]
    unfold Node.evaluateAfter
    cases c.outcome with
    | ok value =>
      obtain ⟨hcalls, hwaits, houtput, hfuture⟩ := descend_alike call node value
      exact ⟨hcalls, hwaits, houtput, congrArg _ hfuture.symm⟩
    | error e => exact ⟨rfl, rfl, rfl, rfl⟩
  obtain ⟨hcalls, hwaits, houtput, hfuture⟩ := hbelow
  have hmem : ∀ {id : String} {f : Fragment},
      (id, f) ∈ (settle sh node c.outcome).2.ledger.fragments ↔
        id = node.id ∧ f = .ofOutcome c.outcome ∨ id ≠ node.id ∧ (id, f) ∈ sh.ledger.fragments := by
    intro id f
    rw [settle_ledger, Ledger.enter_fragments, mem_insertField hlog.fragments_sorted]
    rfl
  refine ⟨⟨?_, ?_, ?_, ?_, ?_, ?_, ?_, ?_⟩, houtput⟩
  · rw [settle_ledger]
    exact hlog.enter (Set.notMem_empty _) _
  · rw [settle_ledger, Ledger.enter_total]
    rfl
  · -- the node leaves the calls in flight and the running nodes, where it was once
    intro id
    have hperm := (IdSet.erase_perm hl.running_sorted.nodup hrunning).count_eq id
    rw [settle_ledger, Ledger.enter_running]
    simp only [callsAll, hcalls, calls, List.append_nil, List.count_nil, List.count_cons] at hperm ⊢
    simp only [Ledger.log]
    omega
  · simp [waitsAll, hwaits]
  · intro f
    simp [futureAll, future, hfuture]
  · intro f hf
    rw [List.mem_singleton.mp hf]
    exact hmem.mpr (.inl ⟨rfl, rfl⟩)
  · rintro ⟨id, f⟩ hf
    refine hmem.mpr (.inr ⟨?_, hf⟩)
    rintro rfl
    exact (hl.running_fresh hrunning).2 f hf
  · rintro ⟨id, f⟩ hf
    rcases hmem.mp hf with ⟨rfl, rfl⟩ | ⟨-, hf⟩
    · exact .inr (List.mem_singleton.mpr rfl)
    · exact .inl hf

/-- A step that leaves the ledger alone and finds an outcome at most. -/
theorem Effect.quiet {l : Ledger} {w w' : Walk} {met : List (String × Fragment)}
    (hl : l.Orderly ∅) (hcalls : w'.calls = w.calls)
    (hwaits : ∀ {id}, id ∈ w'.waits → ∀ f, (id, f) ∉ l.fragments)
    (hfuture : w.future call = met ++ w'.future call) (hmet : ∀ {f}, f ∈ met → f ∈ l.fragments) :
    Effect call l l [w] [w'] met where
  orderly := hl
  total := rfl
  calls := by simp [callsAll, hcalls]
  waiting := by simpa [waitsAll] using @hwaits
  future := by simp [futureAll, hfuture]
  recorded := hmet
  kept := id
  gained := .inl

/-- A recorded outcome of a node that has not been looked at is the one it would have. -/
theorem Fits.eq_outcome {l : Ledger} (hfits : Fits call l [.fresh node parent prev]) {f : Fragment}
    (hf : (node.id, f) ∈ l.fragments) : f = .ofOutcome (node.outcome call parent prev) := by
  refine hfits.agreeing ?_ hf
  simp [futureAll, future, Node.evaluate_eq, Node.evaluateAfter]

/-- A visit starts its node, queues it, or meets what an earlier attempt has recorded below it. -/
theorem visit_effect (hcall : d.registry.Computes call) (hcancel : sh.cancelledAt = none)
    (hl : sh.ledger.Orderly ∅) (hfits : Fits call sh.ledger [.fresh node parent prev]) (room : Bool) :
    ∃ met, Effect call sh.ledger (visit d room sh node parent prev).2.ledger
        [.fresh node parent prev] [(visit d room sh node parent prev).1] met ∧
      (visit d room sh node parent prev).1.output call =
        (node.outcome call parent prev).toOption := by
  unfold visit
  split
  · -- an outcome of an earlier attempt is met again, and what is below it comes next
    rename_i hstatus
    obtain ⟨-, value, hv⟩ := hl.completed_iff.mp (Ledger.status_eq_completed_iff.mp hstatus)
    have hok := Fragment.ofOutcome_eq_completed (hfits.eq_outcome hv)
    obtain ⟨hcalls, hwaits, houtput, hfuture⟩ := descend_alike call node value
    simp only [(hl.value?_eq_some_iff (Set.notMem_empty _)).mpr hv, Shared.cancelled, hcancel,
      Option.isSome_none, hok]
    refine ⟨[(node.id, .completed value)], .quiet hl ?_ ?_ ?_ ?_, houtput⟩
    · rw [hcalls, calls]
    · simp [hwaits]
    · rw [future, Node.evaluate_eq, hok, hfuture]
      rfl
    · intro f hf
      rwa [List.mem_singleton.mp hf]
  · -- below a failed node there are no outcomes, so its whole future is met
    rename_i hstatus
    obtain ⟨-, error, he⟩ := hl.failed_iff.mp (Ledger.status_eq_failed_iff.mp hstatus).2
    obtain ⟨e, herror⟩ := Fragment.ofOutcome_eq_failed (hfits.eq_outcome he)
    refine ⟨node.evaluate call parent prev, .quiet hl rfl ?_ ?_ ?_, ?_⟩
    · simp [waits]
    · simp [future]
    · intro f hf
      rw [Node.evaluate_eq, herror] at hf
      rw [List.mem_singleton.mp hf, ← herror, ← hfits.eq_outcome he]
      exact he
    · rw [herror]
      rfl
  · -- a running node is called by a walk of its own, not by one that is fresh
    rename_i hstatus
    have hid : node.id ∈ idsAll [.fresh node parent prev] := by simp [idsAll, ids, Node.ids_eq]
    have hcalling := (hfits.running hid).mp (Ledger.status_eq_running_iff.mp hstatus).2.2
    simp [callsAll, calls] at hcalling
  · rename_i hstatus
    split
    · obtain ⟨heffect, houtput⟩ := launch_effect hcall hcancel hl hstatus
      exact ⟨[], heffect, houtput⟩
    · obtain ⟨hc, hf, -⟩ := Ledger.status_eq_pending_iff.mp hstatus
      refine ⟨[], .quiet hl rfl ?_ rfl ?_, rfl⟩
      · intro id hid
        rw [waits, List.mem_singleton] at hid
        exact hid ▸ hl.fragment_absent (Set.notMem_empty _) hc hf
      · simp

/-- The engine alone cancels, between steps: no step does. -/
theorem Move.cancelledAt {gate : Gate} {w w' : Walk} {sh' : Shared σ}
    (h : Move d gate sh w w' sh') : sh'.cancelledAt = sh.cancelledAt := by
  have hlaunch : ∀ (node : Node) (parent prev : Option Value),
      (Walk.launch d sh node parent prev).2.cancelledAt = sh.cancelledAt := by
    intro node parent prev
    unfold Walk.launch
    split
    · rfl
    · split <;> rfl
  induction h with
  | visit node parent prev =>
    unfold Walk.visit
    split
    · split <;> rfl
    · rfl
    · rfl
    · split
      · exact hlaunch node parent prev
      · rfl
  | launch node parent prev _ => exact hlaunch node parent prev
  | @settle node c outcome _ =>
    unfold Walk.settle
    cases outcome <;> rfl
  | member _ ih => exact ih
  | current _ ih => exact ih

/-- Every step without a cancellation has such an effect, and leaves the output that
the walk will have as it was. -/
theorem Move.effect {gate : Gate} {w w' : Walk} {sh' : Shared σ} (h : Move d gate sh w w' sh')
    (hcall : d.registry.Computes call) (hcancel : sh.cancelledAt = none)
    (hl : sh.ledger.Orderly ∅) (hfits : Fits call sh.ledger [w]) :
    ∃ met, Effect call sh.ledger sh'.ledger [w] [w'] met ∧ w'.output call = w.output call := by
  induction h with
  | visit node parent prev => exact visit_effect hcall hcancel hl hfits gate.room
  | @launch node parent prev ticket _ =>
    have hid : node.id ∈ idsAll [.queued node parent prev ticket] := by
      simp [idsAll, ids, Node.ids_eq]
    have hfresh := @Fits.waiting _ _ _ hfits node.id (by simp [waitsAll, waits])
    have hrunning : node.id ∉ sh.ledger.running := fun hr => by
      have := (hfits.running hid).mp hr
      simp [callsAll, calls] at this
    have hpending := hl.status_eq_pending hfresh hrunning
    obtain ⟨heffect, houtput⟩ := launch_effect hcall hcancel hl hpending
    exact ⟨[], ⟨heffect.orderly, heffect.total, heffect.calls, heffect.waiting,
      heffect.future, heffect.recorded, heffect.kept, heffect.gained⟩, houtput⟩
  | @settle node c outcome hends =>
    have hid : node.id ∈ idsAll [.calling node c] := by simp [idsAll, ids, Node.ids_eq]
    have hrunning := (hfits.running hid).mpr (by simp [callsAll, calls])
    cases hends with
    | own => exact ⟨_, settle_effect hcancel hl hrunning⟩
    | abandoned hc => simp [Shared.cancelled, hcancel] at hc
  | member _ ih =>
    -- the output of a group is that of its node, whatever the members do
    have hmembers := hfits.members
    obtain ⟨met, heffect, -⟩ := ih hmembers.part
    exact ⟨met, (heffect.whole hmembers).members.alike (closeGroup_alike call _ _),
      (closeGroup_alike call _ _).output⟩
  | @current output w w' later sh' hmove ih =>
    -- the later children see the output of the current one, so it must not change
    obtain ⟨met, heffect, houtput⟩ := ih hfits.current
    have hopen : sh'.cancelled = false := by
      rw [Shared.cancelled, hmove.cancelledAt, hcancel]
      rfl
    rw [hopen]
    exact ⟨met, (heffect.current houtput).alike (closeChain_alike call _ _ _),
      (closeChain_alike call _ _ _).output⟩

end Steps

end Walk

-- ---------------------------------------------------------------------------
-- What a whole run does
-- ---------------------------------------------------------------------------

/-- A ledger with which the execution of a plan may begin: nothing runs, and every
outcome it holds is an outcome of the plan. -/
structure Plan.Resumable (call : Semantics) (p : Plan) (l : Ledger) : Prop where
  orderly : l.Orderly ∅
  total : l.total = p.count
  running : l.running = []
  recorded : ∀ {f}, f ∈ l.fragments → f ∈ p.evaluate call

/-- Every plan may be executed from a ledger without outcomes. -/
theorem Plan.resumable_of_fresh (call : Semantics) {p : Plan} {l : Ledger}
    (h : l.Agrees (.start p.count)) : p.Resumable call l where
  orderly := h.orderly (.start p.count)
  total := h.total
  running := h.running
  recorded := by
    rw [h.fragments]
    exact fun hf => absurd hf List.not_mem_nil

namespace Traversal

open Walk

variable {σ : Type} {d : Dispatch σ} {call : Semantics} {p : Plan} {t t' : Traversal σ}

/-- The invariant of an execution without cancellation: what is recorded and what is
still to come are outcomes of the plan, and together they are all of them. -/
structure Faithful (call : Semantics) (p : Plan) (t : Traversal σ) : Prop where
  uncancelled : t.shared.cancelledAt = none
  orderly : t.shared.ledger.Orderly ∅
  total : t.shared.ledger.total = p.count
  distinct : (idsAll t.walks).Nodup
  running : ∀ id, List.count id t.shared.ledger.running = List.count id (callsAll t.walks)
  waiting : ∀ {id}, id ∈ waitsAll t.walks → ∀ f, (id, f) ∉ t.shared.ledger.fragments
  recorded : ∀ {f}, f ∈ t.shared.ledger.fragments → f ∈ p.evaluate call
  promised : ∀ {f}, f ∈ futureAll call t.walks → f ∈ p.evaluate call
  complete : ∀ {f}, f ∈ p.evaluate call →
    f ∈ t.shared.ledger.fragments ∨ f ∈ futureAll call t.walks

/-- At the start nothing is in flight, so everything the plan promises is either recorded or to
come. -/
theorem Faithful.start {sh : Shared σ} (hp : p.ids.Nodup) (hcancel : sh.cancelledAt = none)
    (hl : p.Resumable call sh.ledger) : Faithful call p (.start p sh) where
  uncancelled := hcancel
  orderly := hl.orderly
  total := hl.total
  distinct := by
    rw [Traversal.start, idsAll_fresh]
    exact hp
  running := by
    intro id
    rw [Traversal.start, callsAll_fresh, hl.running]
  waiting := by
    intro id hid
    rw [Traversal.start, waitsAll_fresh] at hid
    exact absurd hid List.not_mem_nil
  recorded := hl.recorded
  promised := by
    intro f hf
    rwa [Traversal.start, futureAll_fresh] at hf
  complete := by
    intro f hf
    rw [Traversal.start, futureAll_fresh]
    exact .inr hf

/-- The parts of a faithful forest have what they rely on. -/
theorem Faithful.fits (h : Faithful call p t) (hp : p.ids.Nodup) :
    Fits call t.shared.ledger t.walks where
  distinct := h.distinct
  running := by
    intro id _
    rw [← List.count_pos_iff, ← List.count_pos_iff, h.running]
  waiting := h.waiting
  agreeing := by
    intro id f g hf hg
    have := List.inj_on_of_nodup_map (Plan.evaluate_nodup call hp) (h.recorded hg) (h.promised hf) rfl
    exact congrArg Prod.snd this

/-- A turn keeps the invariant. -/
theorem Faithful.turn (hcall : d.registry.Computes call) (hp : p.ids.Nodup)
    (h : Faithful call p t) (hturn : Turn d t t') : Faithful call p t' := by
  have hfits := h.fits hp
  have hdistinct := h.distinct.sublist hturn.ids_sublist
  obtain ⟨-, -, -, hmove⟩ := hturn
  -- the effect on one part is the effect on the forest, and moves `met` into the ledger
  obtain ⟨met, hpart, -⟩ := hmove.effect hcall h.uncancelled h.orderly hfits.part
  have heffect := hpart.whole hfits
  refine ⟨hmove.cancelledAt.trans h.uncancelled, heffect.orderly, heffect.total.trans h.total,
    hdistinct, ?_, heffect.waiting, ?_, ?_, ?_⟩
  · intro id
    have hcalls := heffect.calls id
    have hrunning := h.running id
    simp only at hcalls hrunning ⊢
    omega
  · intro f hf
    rcases heffect.gained hf with hf | hf
    · exact h.recorded hf
    · exact h.promised ((heffect.future f).mpr (.inl hf))
  · intro f hf
    exact h.promised ((heffect.future f).mpr (.inr hf))
  · intro f hf
    rcases h.complete hf with hf | hf
    · exact .inl (heffect.kept hf)
    · rcases (heffect.future f).mp hf with hf | hf
      · exact .inl (heffect.recorded hf)
      · exact .inr hf

/-- Faithfulness lasts through any number of turns. -/
theorem Faithful.turns (hcall : d.registry.Computes call) (hp : p.ids.Nodup)
    (h : Faithful call p t) (hturns : Turns d t t') : Faithful call p t' := by
  induction hturns with
  | refl => exact h
  | tail _ hturn ih => exact ih.turn hcall hp hturn

/-- When nothing is left to do, the ledger is that of the plan evaluated in order. -/
theorem Faithful.agrees (hp : p.ids.Nodup) (h : Faithful call p t) (hover : t.isOver = true) :
    t.shared.ledger.Agrees (p.evaluated call) := by
  obtain ⟨hcalls, -, hfuture⟩ := all_done_nil call hover
  -- two orderly ledgers agree when they count, run and record the same
  refine h.orderly.agrees (p.evaluated_orderly call) ?_ ?_ ?_
  · rw [h.total, Plan.evaluated_total]
  · intro id
    rw [← List.count_pos_iff, h.running, hcalls, Plan.evaluated_running]
    simp
  · rintro ⟨id, f⟩
    rw [Plan.mem_evaluated call hp]
    -- what was promised is recorded or still to come, and nothing is still to come
    refine ⟨h.recorded, fun hf => ?_⟩
    rcases h.complete hf with hf | hf
    · exact hf
    · rw [hfuture] at hf
      exact absurd hf List.not_mem_nil

/-- However its steps are ordered, an execution that is over has recorded the outcomes
of the plan. -/
theorem turns_agree (hcall : d.registry.Computes call) (hp : p.ids.Nodup) {sh : Shared σ}
    (hcancel : sh.cancelledAt = none) (hl : p.Resumable call sh.ledger)
    (hturns : Turns d (.start p sh) t) (hover : t.isOver = true) :
    t.shared.ledger.Agrees (p.evaluated call) :=
  ((Faithful.start hp hcancel hl).turns hcall hp hturns).agrees hp hover

/-- **Schedule independence.** A plan of distinct ids is executed from a ledger without
outcomes and without cancellation, and its layers compute a function of their calls.
Then no order of steps goes on for ever or gets stuck before the end, and whichever is
taken, the status and the outcome of every node, the text of the result and the numbers
of completed, failed and running nodes are those of the plan evaluated in order. The
order that is really taken is one of them, by `turn_of_stepAll?`. -/
theorem schedule_independence {sh : Shared σ} (hcall : d.registry.Computes call)
    (hpermits : d.permits ≠ some 0) (hp : p.ids.Nodup) (hcancel : sh.cancelledAt = none)
    (hfresh : sh.ledger.Agrees (.start p.count)) :
    (∀ run : Nat → Traversal σ, run 0 = .start p sh → ∃ n, ¬ Turn d (run n) (run (n + 1))) ∧
    ∀ t, Turns d (.start p sh) t →
      (t.isOver = false → ∃ t', Turn d t t') ∧
      (t.isOver = true →
        (∀ id, t.shared.ledger.status id = (p.evaluated call).status id ∧
          field? id t.shared.ledger.fragments = field? id (p.evaluated call).fragments) ∧
        p.resultText t.shared.ledger = p.resultText (p.evaluated call) ∧
        t.shared.ledger.counts =
          ((p.evaluated call).completed.length, (p.evaluated call).failed.length, 0)) := by
  refine ⟨fun run _ => turns_finite run, fun t hturns => ⟨exists_turn hpermits hturns.live, ?_⟩⟩
  intro hover
  have hagrees := turns_agree hcall hp hcancel (Plan.resumable_of_fresh call hfresh) hturns hover
  refine ⟨fun id => ⟨congrFun hagrees.status id, by rw [hagrees.fragments]⟩,
    hagrees.resultText p, ?_⟩
  rw [hagrees.counts, Ledger.counts, Plan.evaluated_running]
  rfl

-- ---------------------------------------------------------------------------
-- A plan with a failing node
-- ---------------------------------------------------------------------------

/-- What the calls of one layer come to that gives back its arguments unless it is told
to fail. -/
def echo : Semantics := fun layer function args =>
  if layer = "echo" then
    if function = "fail" then .error (.invalidArguments "told to fail") else .ok args
  else .error (.notFound layer)

/-- Calls to that layer, one at a time. -/
def echoDispatch : Dispatch Unit where
  registry := Registry.empty.register "echo" (.immediate "" [] (echo "echo"))
  permits := some 1
  graceMs := 0

theorem echoDispatch_computes : echoDispatch.registry.Computes echo := by
  intro layer function args world
  by_cases h : layer = "echo"
  · subst h
    simp [Registry.invoke, echoDispatch, Layer.immediate]
  · have hget : echoDispatch.registry.get? layer = none := by
      rw [echoDispatch, Registry.get?_register_ne _ _ h]
      rfl
    simp [Registry.invoke, hget, echo, h]

/-- Two roots: below the first a failing node and a sibling that would see its output,
below the second a node that sees the output of its parent. -/
def echoPlan : Plan where
  roots := [
    ⟨"a", "echo", "say", .empty, false, [
      ⟨"b", "echo", "fail", .str "$parent", false, []⟩,
      ⟨"c", "echo", "say", .str "$prev", false, []⟩]⟩,
    ⟨"d", "echo", "say", .str "hello", true, [⟨"e", "echo", "say", .str "$parent", true, []⟩]⟩]

/-- What the parts of an execution of that plan share at first. -/
def echoShared : Shared Unit := ⟨.start 5, (), [], 0, none, 0⟩

/-- Every order of steps of that plan ends, with four nodes completed and one failed. -/
theorem schedule_independence_echo :
    (echoDispatch.registry.Computes echo ∧ echoDispatch.permits ≠ some 0 ∧ echoPlan.ids.Nodup ∧
      echoShared.cancelledAt = none ∧ echoShared.ledger.Agrees (.start echoPlan.count)) ∧
    (∀ run : Nat → Traversal Unit, run 0 = .start echoPlan echoShared →
      ∃ n, ¬ Turn echoDispatch (run n) (run (n + 1))) ∧
    ∀ t, Turns echoDispatch (.start echoPlan echoShared) t → t.isOver = true →
      t.shared.ledger.counts = (4, 1, 0) ∧ t.shared.ledger.status "b" = .failed ∧
        t.shared.ledger.status "c" = .completed := by
  have hids : echoPlan.ids.Nodup := by decide
  have hledger : echoShared.ledger.Agrees (.start echoPlan.count) := ⟨rfl, rfl, rfl, rfl, rfl⟩
  have hcancel : echoShared.cancelledAt = none := rfl
  obtain ⟨hends, hturns⟩ :=
    schedule_independence echoDispatch_computes (by decide) hids hcancel hledger
  refine ⟨⟨echoDispatch_computes, by decide, hids, hcancel, hledger⟩, hends, fun t ht hover => ?_⟩
  obtain ⟨hnodes, -, hcounts⟩ := (hturns t ht).2 hover
  refine ⟨hcounts.trans (by decide), (hnodes "b").1.trans (by decide), (hnodes "c").1.trans (by decide)⟩

end Traversal

end PlanRunner
