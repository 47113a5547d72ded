import Mathlib.Logic.Relation
import Mathlib.Tactic.ByContra
import Mathlib.Tactic.Push
import PlanRunner.Run.Walk

/-!
# PlanRunner — all orders of a walk's steps

`Walk.poke?` takes the leftmost step that is possible at a given time. Nothing a plan
comes to may depend on that choice, so this module lets any part of a forest take its
next step at any time: a call in flight may end before or after every other one, a
waiting node may be served out of turn, and a node that finds room may still queue.
What a single node does is `visit`, `launch` and `settle` of `Run/Walk.lean`.

* `Walk.Move` — one step somewhere in a walk;
* `Traversal.Turn` — one step somewhere in a forest, with calls started only while
  fewer than the bound are in flight;
* `Traversal.turn_of_stepAll?` — the steps that are really taken are turns;
* `Walk.Move.ids_sublist`, `Walk.Move.ledger` — which nodes a step is about, and what it
  does to the ledger;
* `Traversal.exists_turn`, `Traversal.exists_end` — as long as something is left to do, a
  turn is possible, and so there is a way to the end;
* `Traversal.turns_finite` — there is no endless sequence of turns.
-/

namespace PlanRunner

namespace Walk

variable {σ : Type}

/-- How a call may end at whatever time it ends: with its own outcome, or abandoned
once the walk has been cancelled. -/
inductive Ends (d : Dispatch σ) (sh : Shared σ) (node : Node) (call : Call) :
    Except LayerError Value → Prop where
  | own : Ends d sh node call call.outcome
  | abandoned (hcancel : sh.cancelled = true) :
    Ends d sh node call (.error (.abandoned node.layer node.function d.graceMs))

/-- One step somewhere in a walk, of whichever node. The gate tells whether calls may
start. -/
inductive Move (d : Dispatch σ) (gate : Gate) (sh : Shared σ) : Walk → Walk → Shared σ → Prop where
  | visit (node : Node) (parent prev : Option Value) :
    Move d gate sh (.fresh node parent prev) (visit d gate.room sh node parent prev).1
      (visit d gate.room sh node parent prev).2
  | launch (node : Node) (parent prev : Option Value) {ticket : Nat}
      (hserve : sh.cancelled = true ∨ gate.serves ticket = true) :
    Move d gate sh (.queued node parent prev ticket) (launch d sh node parent prev).1
      (launch d sh node parent prev).2
  | settle {node : Node} {call : Call} {outcome : Except LayerError Value}
      (hends : Ends d sh node call outcome) :
    Move d gate sh (.calling node call) (settle sh node outcome).1 (settle sh node outcome).2
  | member {output : Value} {before after : List Walk} {w w' : Walk} {sh' : Shared σ}
      (hmove : Move d gate sh w w' sh') :
    Move d gate sh (.group output (before ++ w :: after))
      (closeGroup output (before ++ w' :: after)) sh'
  | current {output : Value} {w w' : Walk} {later : List Node} {sh' : Shared σ}
      (hmove : Move d gate sh w w' sh') :
    Move d gate sh (.chain output w later) (closeChain sh'.cancelled output w' later) sh'

-- ---------------------------------------------------------------------------
-- The step that is really taken
-- ---------------------------------------------------------------------------

theorem ends_ending (d : Dispatch σ) (sh : Shared σ) (node : Node) (call : Call) :
    Ends d sh node call (ending d sh node call) := by
  unfold ending
  split
  · exact .own
  · rename_i t ht
    split
    · exact .own
    · exact .abandoned (by simp [Shared.cancelled, ht])

mutual

/-- The leftmost step is one of the steps. -/
theorem move_of_poke? (d : Dispatch σ) (gate : Gate) (sh : Shared σ) :
    ∀ {w w' : Walk} {sh' : Shared σ}, w.poke? d gate sh = some (w', sh') → Move d gate sh w w' sh'
  | .fresh node parent prev, w', sh', h => by
    simp only [poke?, Option.some.injEq] at h
    have hmove : Move d gate sh (.fresh node parent prev) _ _ := .visit node parent prev
    rwa [h] at hmove
  | .queued node parent prev ticket, w', sh', h => by
    simp only [poke?] at h
    split at h
    · rename_i hserve
      simp only [Option.some.injEq] at h
      have hmove : Move d gate sh (.queued node parent prev ticket) _ _ :=
        .launch node parent prev (by simpa using hserve)
      rwa [h] at hmove
    · simp at h
  | .calling node call, w', sh', h => by
    simp only [poke?] at h
    split at h
    · simp only [Option.some.injEq] at h
      have hmove : Move d gate sh (.calling node call) _ _ := .settle (ends_ending d sh node call)
      rwa [h] at hmove
    · simp at h
  | .group output members, w', sh', h => by
    simp only [poke?] at h
    split at h
    · rename_i members' sh'' hm
      obtain ⟨before, w, after, w', rfl, rfl, hmove⟩ := move_of_pokeAll? d gate sh hm
      simp only [Option.some.injEq, Prod.mk.injEq] at h
      obtain ⟨rfl, rfl⟩ := h
      exact .member hmove
    · simp at h
  | .chain output current later, w', sh', h => by
    simp only [poke?] at h
    split at h
    · rename_i current' sh'' hc
      simp only [Option.some.injEq, Prod.mk.injEq] at h
      obtain ⟨rfl, rfl⟩ := h
      exact .current (move_of_poke? d gate sh hc)
    · simp at h
  | .done _, w', sh', h => by simp [poke?] at h

/-- A poke of a list is a move of one walk in it, the others standing still. -/
theorem move_of_pokeAll? (d : Dispatch σ) (gate : Gate) (sh : Shared σ) :
    ∀ {ws ws' : List Walk} {sh' : Shared σ}, pokeAll? d gate sh ws = some (ws', sh') →
      ∃ before w after w', ws = before ++ w :: after ∧ ws' = before ++ w' :: after ∧
        Move d gate sh w w' sh'
  | [], ws', sh', h => by simp [pokeAll?] at h
  | w :: ws, ws', sh', h => by
    simp only [pokeAll?] at h
    split at h
    · rename_i w' sh'' hw
      simp only [Option.some.injEq, Prod.mk.injEq] at h
      obtain ⟨rfl, rfl⟩ := h
      exact ⟨[], w, ws, w', rfl, rfl, move_of_poke? d gate sh hw⟩
    · split at h
      · rename_i ws'' sh'' hws
        simp only [Option.some.injEq, Prod.mk.injEq] at h
        obtain ⟨rfl, rfl⟩ := h
        obtain ⟨before, v, after, v', rfl, rfl, hmove⟩ := move_of_pokeAll? d gate sh hws
        exact ⟨w :: before, v, after, v', rfl, rfl, hmove⟩
      · simp at h

end

end Walk

-- ---------------------------------------------------------------------------
-- Forests
-- ---------------------------------------------------------------------------

/-- A forest of walks and what its parts share. -/
structure Traversal (σ : Type) where
  walks : List Walk
  shared : Shared σ

namespace Traversal

open Walk

variable {σ : Type}

/-- A plan of which no node has been looked at. -/
def start (p : Plan) (sh : Shared σ) : Traversal σ :=
  ⟨p.roots.map fun root => .fresh root none none, sh⟩

/-- Whether nothing is left to do. -/
def isOver (t : Traversal σ) : Bool := t.walks.all isDone

/-- Whether another call may start: fewer than the bound are in flight. -/
def HasPermit (permits : Option Nat) (walks : List Walk) : Prop :=
  ∀ k, permits = some k → callCountAll walks < k

/-- One step somewhere in a forest, now or later. Calls start only with a permit. -/
inductive Turn (d : Dispatch σ) : Traversal σ → Traversal σ → Prop where
  | step {before after : List Walk} {w w' : Walk} {sh sh' : Shared σ} {gate : Gate} {nowMs : Nat}
      (hroom : gate.room = true → HasPermit d.permits (before ++ w :: after))
      (hserves : ∀ ticket, gate.serves ticket = true → HasPermit d.permits (before ++ w :: after))
      (hnow : sh.nowMs ≤ nowMs)
      (hmove : Move d gate { sh with nowMs := nowMs } w w' sh') :
    Turn d ⟨before ++ w :: after, sh⟩ ⟨before ++ w' :: after, sh'⟩

/-- Any number of turns. -/
abbrev Turns (d : Dispatch σ) : Traversal σ → Traversal σ → Prop :=
  Relation.ReflTransGen (Turn d)

/-- The gate lets a newcomer start only if a permit is free. -/
theorem hasPermit_of_hasRoom {permits : Option Nat} {walks : List Walk}
    (h : hasRoom permits walks = true) : HasPermit permits walks := by
  rintro k rfl
  simp only [hasRoom, decide_eq_true_eq] at h
  omega

/-- The gate serves a ticket only if a permit is free. -/
theorem hasPermit_of_mayServe {permits : Option Nat} {walks : List Walk} {ticket : Nat}
    (h : mayServe permits walks ticket = true) : HasPermit permits walks := by
  rintro k rfl
  simp only [mayServe, decide_eq_true_eq] at h
  omega

/-- The step that is really taken, at whatever time, is a turn. -/
theorem turn_of_stepAll? {d : Dispatch σ} {walks walks' : List Walk} {sh sh' : Shared σ}
    {nowMs : Nat} (hnow : sh.nowMs ≤ nowMs)
    (h : stepAll? d { sh with nowMs := nowMs } walks = some (walks', sh')) :
    Turn d ⟨walks, sh⟩ ⟨walks', sh'⟩ := by
  -- a newcomer or a ticket: both gates are about the same permits, so one argument serves both
  have hturn : ∀ {serves : Nat → Bool},
      (∀ ticket, serves ticket = true → HasPermit d.permits walks) →
      pokeAll? d ⟨hasRoom d.permits walks, serves⟩ { sh with nowMs := nowMs } walks =
        some (walks', sh') →
      Turn d ⟨walks, sh⟩ ⟨walks', sh'⟩ := by
    intro serves hserves hpoke
    obtain ⟨before, w, after, w', rfl, rfl, hmove⟩ := move_of_pokeAll? d _ _ hpoke
    exact .step hasPermit_of_hasRoom hserves hnow hmove
  simp only [stepAll?] at h
  split at h
  · rename_i hpoke
    rw [h] at hpoke
    exact hturn (fun _ hserve => absurd hserve (by simp)) hpoke
  · exact hturn (fun _ => hasPermit_of_mayServe) h

end Traversal

-- ---------------------------------------------------------------------------
-- Every step leaves less to do
-- ---------------------------------------------------------------------------

namespace Walk

variable {σ : Type}

theorem weightAll_append (ws vs : List Walk) :
    weightAll (ws ++ vs) = weightAll ws + weightAll vs := by
  induction ws with
  | nil => simp [weightAll]
  | cons w ws ih => simp only [List.cons_append, weightAll, ih]; omega

/-- One lighter member makes the list lighter. -/
theorem weightAll_replace_lt (before after : List Walk) {w w' : Walk} (h : w'.weight < w.weight) :
    weightAll (before ++ w' :: after) < weightAll (before ++ w :: after) := by
  simp only [weightAll_append, weightAll]
  omega

/-- Wherever a step is taken, it leaves less to do. -/
theorem Move.weight_lt {d : Dispatch σ} {gate : Gate} {sh sh' : Shared σ} {w w' : Walk}
    (h : Move d gate sh w w' sh') : w'.weight < w.weight := by
  induction h with
  | visit node parent prev => exact weight_visit d gate.room sh node parent prev
  | launch node parent prev _ =>
    have hl := weight_launch d sh node parent prev
    simp only [weight]
    omega
  | @settle node call outcome _ => exact weight_settle sh node outcome
  | @member output before after w w' sh' _ ih =>
    have hg := weight_closeGroup output (before ++ w' :: after)
    have hm := weightAll_replace_lt before after ih
    simp only [weight]
    omega
  | @current output w w' later sh' _ ih =>
    have hc := weight_closeChain sh'.cancelled output w' later
    simp only [weight]
    omega

-- ---------------------------------------------------------------------------
-- Every step is about nodes that the walk has to do with
-- ---------------------------------------------------------------------------

mutual

/-- The ids of the nodes a walk may still touch. -/
def ids : Walk → List String
  | .fresh node _ _ => node.ids
  | .queued node _ _ _ => node.ids
  | .calling node _ => node.ids
  | .group _ members => idsAll members
  | .chain _ current later => current.ids ++ Node.idsAll later
  | .done _ => []

def idsAll : List Walk → List String
  | [] => []
  | w :: ws => w.ids ++ idsAll ws

end

theorem idsAll_append (ws vs : List Walk) : idsAll (ws ++ vs) = idsAll ws ++ idsAll vs := by
  induction ws with
  | nil => rfl
  | cons w ws ih => simp only [List.cons_append, idsAll, ih, List.append_assoc]

theorem idsAll_fresh (parent : Option Value) (nodes : List Node) :
    idsAll (nodes.map fun n => .fresh n parent none) = Node.idsAll nodes := by
  induction nodes with
  | nil => rfl
  | cons n ns ih => simp only [List.map_cons, idsAll, ids, ih, Node.idsAll]

/-- What is left of a chain is among the nodes that were to come. -/
theorem ids_nextInChain (c : Bool) (output : Value) (prev : Option Value) (nodes : List Node) :
    (nextInChain c output prev nodes).ids.Sublist (Node.idsAll nodes) := by
  cases nodes with
  | nil => exact List.Sublist.refl _
  | cons n ns =>
    simp only [nextInChain]
    split
    · exact List.nil_sublist _
    · exact List.Sublist.refl _

/-- Below a node that is done are its children and what is below them. -/
theorem ids_descend (c : Bool) (node : Node) (output : Value) :
    (descend c node output).ids.Sublist (Node.idsAll node.children) := by
  unfold descend
  split
  · exact List.nil_sublist _
  · split
    · have hids : idsAll (node.children.map fun child => .fresh child (some output) none) =
          Node.idsAll node.children := idsAll_fresh (some output) node.children
      exact hids ▸ List.Sublist.refl _
    · exact ids_nextInChain c output none node.children

theorem ids_closeGroup (output : Value) (members : List Walk) :
    (closeGroup output members).ids.Sublist (idsAll members) := by
  unfold closeGroup
  split
  · exact List.nil_sublist _
  · exact List.Sublist.refl _

theorem ids_closeChain (c : Bool) (output : Value) (current : Walk) (later : List Node) :
    (closeChain c output current later).ids.Sublist (current.ids ++ Node.idsAll later) := by
  unfold closeChain
  split
  · exact ids_nextInChain c output _ later
  · exact List.Sublist.refl _

/-- A node that starts stands for itself and for what is below it, or for nothing. -/
theorem ids_launch (d : Dispatch σ) (sh : Shared σ) (node : Node) (parent prev : Option Value) :
    (launch d sh node parent prev).1.ids.Sublist node.ids := by
  unfold launch
  split
  · exact List.nil_sublist _
  · split
    · exact List.nil_sublist _
    · exact List.Sublist.refl _

theorem idsAll_children_sublist (node : Node) : (Node.idsAll node.children).Sublist node.ids := by
  cases node
  exact List.sublist_cons_self _ _

/-- A visit brings no node in from elsewhere. -/
theorem ids_visit (d : Dispatch σ) (room : Bool) (sh : Shared σ) (node : Node)
    (parent prev : Option Value) : (visit d room sh node parent prev).1.ids.Sublist node.ids := by
  unfold visit
  split
  · split
    · exact (ids_descend sh.cancelled node _).trans (idsAll_children_sublist node)
    · exact List.nil_sublist _
  · exact List.nil_sublist _
  · exact List.nil_sublist _
  · split
    · exact ids_launch d sh node parent prev
    · exact List.Sublist.refl _

theorem ids_settle (sh : Shared σ) (node : Node) (outcome : Except LayerError Value) :
    (settle sh node outcome).1.ids.Sublist node.ids := by
  unfold settle
  cases outcome with
  | ok value => exact (ids_descend _ node value).trans (idsAll_children_sublist node)
  | error e => exact List.nil_sublist _

/-- Wherever a step is taken, it brings no node into play. -/
theorem Move.ids_sublist {d : Dispatch σ} {gate : Gate} {sh sh' : Shared σ} {w w' : Walk}
    (h : Move d gate sh w w' sh') : w'.ids.Sublist w.ids := by
  -- a move happens at one leaf; above it, groups and chains only drop what is done
  induction h with
  | visit node parent prev => exact ids_visit d gate.room sh node parent prev
  | launch node parent prev _ => exact ids_launch d sh node parent prev
  | settle _ => exact ids_settle sh _ _
  | @member output before after w w' sh' _ ih =>
    refine (ids_closeGroup output _).trans ?_
    rw [ids, idsAll_append, idsAll_append]
    exact (List.Sublist.refl _).append (ih.append (List.Sublist.refl _))
  | @current output w w' later sh' _ ih =>
    exact (ids_closeChain _ output w' later).trans (ih.append (List.Sublist.refl _))

/-- What a step does to the ledger, and what it makes known: nothing, or it starts one of
some nodes, or it takes the outcome of one of them. -/
inductive Touches (ids : List String) (sh sh' : Shared σ) : Prop where
  | quiet (hledger : sh'.ledger = sh.ledger) (hchanges : sh'.changes = sh.changes)
  | starts {node : Node} (hid : node.id ∈ ids)
      (hmark : sh.ledger.markRunning node.id = some sh'.ledger)
      (hchanges : sh'.changes = sh'.ledger :: sh.changes)
  | ends {node : Node} (hid : node.id ∈ ids) (outcome : Except LayerError Value)
      (hrecord : sh'.ledger = record sh.ledger node outcome)
      (hchanges : sh'.changes = sh'.ledger :: sh.changes)

/-- A step that touches some nodes touches no more than any larger set of them. -/
theorem Touches.mono {ids ids' : List String} {sh sh' : Shared σ} (h : Touches ids sh sh')
    (hsub : ids ⊆ ids') : Touches ids' sh sh' := by
  cases h with
  | quiet hledger hchanges => exact .quiet hledger hchanges
  | starts hid hmark hchanges => exact .starts (hsub hid) hmark hchanges
  | ends hid outcome hrecord hchanges => exact .ends (hsub hid) outcome hrecord hchanges

/-- Starting marks the node as running, if the ledger lets it, and nothing else. -/
theorem launch_touches (d : Dispatch σ) (sh : Shared σ) (node : Node) (parent prev : Option Value) :
    Touches node.ids sh (launch d sh node parent prev).2 := by
  unfold launch
  split
  · exact .quiet rfl rfl
  · split
    · exact .quiet rfl rfl
    · rename_i ledger hmark
      exact .starts node.mem_ids_self hmark rfl

theorem visit_touches (d : Dispatch σ) (room : Bool) (sh : Shared σ) (node : Node)
    (parent prev : Option Value) : Touches node.ids sh (visit d room sh node parent prev).2 := by
  unfold visit
  split
  · split
    · exact .quiet rfl rfl
    · exact .quiet rfl rfl
  · exact .quiet rfl rfl
  · exact .quiet rfl rfl
  · -- a pending node is launched if there is room, and else only takes a ticket
    split
    · exact launch_touches d sh node parent prev
    · exact .quiet rfl rfl

/-- An outcome is recorded for the node whose call it is. -/
theorem settle_touches (sh : Shared σ) (node : Node) (outcome : Except LayerError Value) :
    Touches node.ids sh (settle sh node outcome).2 := by
  refine .ends node.mem_ids_self outcome ?_ ?_
  · unfold settle
    cases outcome <;> rfl
  · unfold settle
    cases outcome <;> rfl

/-- A move touches the node at its leaf alone. -/
theorem Move.touches {d : Dispatch σ} {gate : Gate} {sh sh' : Shared σ} {w w' : Walk}
    (h : Move d gate sh w w' sh') : Touches w.ids sh sh' := by
  induction h with
  | visit node parent prev => exact visit_touches d gate.room sh node parent prev
  | launch node parent prev _ => exact launch_touches d sh node parent prev
  | settle _ => exact settle_touches sh _ _
  | @member output before after w w' sh' _ ih =>
    refine ih.mono fun id hid => ?_
    rw [ids, idsAll_append]
    exact List.mem_append_right _ (List.mem_append_left _ hid)
  | current _ ih => exact ih.mono fun id hid => List.mem_append_left _ hid

-- ---------------------------------------------------------------------------
-- Something is possible as long as something is left
-- ---------------------------------------------------------------------------

mutual

/-- A walk in which every group has a member that is not done, and every chain a
current child that is not. -/
def Live : Walk → Prop
  | .group _ members => LiveAll members ∧ members.all isDone = false
  | .chain _ current _ => current.Live ∧ current.isDone = false
  | .fresh _ _ _ => True
  | .queued _ _ _ _ => True
  | .calling _ _ => True
  | .done _ => True

def LiveAll : List Walk → Prop
  | [] => True
  | w :: ws => w.Live ∧ LiveAll ws

end

theorem liveAll_iff {ws : List Walk} : LiveAll ws ↔ ∀ w ∈ ws, w.Live := by
  induction ws with
  | nil => simp [LiveAll]
  | cons w ws ih => simp [LiveAll, ih]

theorem liveAll_fresh (nodes : List Node) (parent : Option Value) :
    LiveAll (nodes.map fun n => .fresh n parent none) := by
  rw [liveAll_iff]
  intro w hw
  obtain ⟨n, -, rfl⟩ := List.mem_map.mp hw
  trivial

/-- What a chain goes on with has a node that can move, or the chain is over. -/
theorem live_nextInChain (c : Bool) (output : Value) (prev : Option Value) (nodes : List Node) :
    (nextInChain c output prev nodes).Live := by
  cases nodes with
  | nil => trivial
  | cons n ns =>
    simp only [nextInChain]
    split
    · trivial
    · exact ⟨trivial, rfl⟩

/-- Below a node there is a group or a chain with something to do, or nothing at all. -/
theorem live_descend (c : Bool) (node : Node) (output : Value) : (descend c node output).Live := by
  unfold descend
  split
  · trivial
  · rename_i hne
    split
    · refine ⟨liveAll_fresh node.children (some output), ?_⟩
      cases hc : node.children with
      | nil => simp [hc] at hne
      | cons n ns => rfl
    · exact live_nextInChain c output none node.children

/-- A group is closed when its last member is done, so one that stays open is live. -/
theorem live_closeGroup (output : Value) {members : List Walk} (h : LiveAll members) :
    (closeGroup output members).Live := by
  unfold closeGroup
  split
  · trivial
  · rename_i hd
    exact ⟨h, by simpa using hd⟩

/-- A chain whose current node is done goes on to the next, so it is not left waiting. -/
theorem live_closeChain (c : Bool) (output : Value) {current : Walk} (later : List Node)
    (h : current.Live) : (closeChain c output current later).Live := by
  unfold closeChain
  split
  · exact live_nextInChain c output _ later
  · rename_i hne
    refine ⟨h, ?_⟩
    cases current with
    | done prev => exact absurd rfl (hne prev)
    | _ => rfl

theorem live_launch (d : Dispatch σ) (sh : Shared σ) (node : Node) (parent prev : Option Value) :
    (launch d sh node parent prev).1.Live := by
  unfold launch
  split
  · trivial
  · split <;> trivial

theorem live_visit (d : Dispatch σ) (room : Bool) (sh : Shared σ) (node : Node)
    (parent prev : Option Value) : (visit d room sh node parent prev).1.Live := by
  unfold visit
  split
  · split
    · exact live_descend sh.cancelled node _
    · trivial
  · trivial
  · trivial
  · split
    · exact live_launch d sh node parent prev
    · trivial

theorem live_settle (sh : Shared σ) (node : Node) (outcome : Except LayerError Value) :
    (settle sh node outcome).1.Live := by
  unfold settle
  cases outcome with
  | ok value => exact live_descend _ node value
  | error e => trivial

/-- No move leaves a walk that holds on to parts which are all done. -/
theorem Move.live {d : Dispatch σ} {gate : Gate} {sh sh' : Shared σ} {w w' : Walk}
    (h : Move d gate sh w w' sh') (hw : w.Live) : w'.Live := by
  induction h with
  | visit node parent prev => exact live_visit d gate.room sh node parent prev
  | launch node parent prev _ => exact live_launch d sh node parent prev
  | settle _ => exact live_settle sh _ _
  | @member output before after w w' sh' _ ih =>
    -- the other members are as live as they were; the one that moved is by induction
    have hall := liveAll_iff.mp hw.1
    refine live_closeGroup output (liveAll_iff.mpr fun v hv => ?_)
    rcases List.mem_append.mp hv with hv | hv
    · exact hall v (List.mem_append_left _ hv)
    · rcases List.mem_cons.mp hv with rfl | hv
      · exact ih (hall w (by simp))
      · exact hall v (by simp [hv])
  | current _ ih => exact live_closeChain _ _ _ (ih hw.1)

mutual

/-- If every waiting node may be served, a live walk that is not done has a step. -/
theorem exists_move_of_serves (d : Dispatch σ) (gate : Gate) (sh : Shared σ)
    (hgate : ∀ ticket, gate.serves ticket = true) :
    ∀ {w : Walk}, w.Live → w.isDone = false → ∃ w' sh', Move d gate sh w w' sh'
  | .fresh node parent prev, _, _ => ⟨_, _, .visit node parent prev⟩
  | .queued node parent prev ticket, _, _ => ⟨_, _, .launch node parent prev (.inr (hgate ticket))⟩
  | .calling _ _, _, _ => ⟨_, _, .settle .own⟩
  | .group output members, hlive, _ => by
    obtain ⟨before, w, after, w', sh', rfl, hmove⟩ :=
      exists_member_move_of_serves d gate sh hgate hlive.1 hlive.2
    exact ⟨_, _, .member hmove⟩
  | .chain output current later, hlive, _ => by
    obtain ⟨w', sh', hmove⟩ := exists_move_of_serves d gate sh hgate hlive.1 hlive.2
    exact ⟨_, _, .current hmove⟩
  | .done _, _, hdone => by simp [isDone] at hdone

/-- In a live list that is not done, some member can move when every gate is open. -/
theorem exists_member_move_of_serves (d : Dispatch σ) (gate : Gate) (sh : Shared σ)
    (hgate : ∀ ticket, gate.serves ticket = true) :
    ∀ {ws : List Walk}, LiveAll ws → ws.all isDone = false →
      ∃ before w after w' sh', ws = before ++ w :: after ∧ Move d gate sh w w' sh'
  | [], _, hdone => by simp at hdone
  | w :: ws, hlive, hdone => by
    by_cases hw : w.isDone = false
    · obtain ⟨w', sh', hmove⟩ := exists_move_of_serves d gate sh hgate hlive.1 hw
      exact ⟨[], w, ws, w', sh', rfl, hmove⟩
    · have hws : ws.all isDone = false := by simpa [hw] using hdone
      obtain ⟨before, v, after, v', sh', rfl, hmove⟩ :=
        exists_member_move_of_serves d gate sh hgate hlive.2 hws
      exact ⟨w :: before, v, after, v', sh', rfl, hmove⟩

end

mutual

/-- A call in flight can always end. -/
theorem exists_move_of_call (d : Dispatch σ) (gate : Gate) (sh : Shared σ) :
    ∀ {w : Walk}, 0 < w.callCount → ∃ w' sh', Move d gate sh w w' sh'
  | .calling _ _, _ => ⟨_, _, .settle .own⟩
  | .group output members, hcall => by
    obtain ⟨before, w, after, w', sh', rfl, hmove⟩ := exists_member_move_of_call d gate sh hcall
    exact ⟨_, _, .member hmove⟩
  | .chain output current later, hcall => by
    obtain ⟨w', sh', hmove⟩ := exists_move_of_call d gate sh (w := current) hcall
    exact ⟨_, _, .current hmove⟩
  | .fresh _ _ _, hcall => by simp [callCount] at hcall
  | .queued _ _ _ _, hcall => by simp [callCount] at hcall
  | .done _, hcall => by simp [callCount] at hcall

/-- A call in flight can always end, whatever the gates say. -/
theorem exists_member_move_of_call (d : Dispatch σ) (gate : Gate) (sh : Shared σ) :
    ∀ {ws : List Walk}, 0 < callCountAll ws →
      ∃ before w after w' sh', ws = before ++ w :: after ∧ Move d gate sh w w' sh'
  | [], hcall => by simp [callCountAll] at hcall
  | w :: ws, hcall => by
    by_cases hw : 0 < w.callCount
    · obtain ⟨w', sh', hmove⟩ := exists_move_of_call d gate sh hw
      exact ⟨[], w, ws, w', sh', rfl, hmove⟩
    · have hws : 0 < callCountAll ws := by
        simp only [callCountAll] at hcall
        omega
      obtain ⟨before, v, after, v', sh', rfl, hmove⟩ := exists_member_move_of_call d gate sh hws
      exact ⟨w :: before, v, after, v', sh', rfl, hmove⟩

end

end Walk

namespace Traversal

open Walk

variable {σ : Type} {d : Dispatch σ}

/-- Every turn uses up weight, so an interleaving ends. -/
theorem Turn.weight_lt {t t' : Traversal σ} (h : Turn d t t') :
    weightAll t'.walks < weightAll t.walks := by
  obtain ⟨-, -, -, hmove⟩ := h
  exact weightAll_replace_lt _ _ hmove.weight_lt

/-- No turn adds a node to what is walked. -/
theorem Turn.ids_sublist {t t' : Traversal σ} (h : Turn d t t') :
    (idsAll t'.walks).Sublist (idsAll t.walks) := by
  obtain ⟨-, -, -, hmove⟩ := h
  rw [idsAll_append, idsAll_append]
  exact (List.Sublist.refl _).append (hmove.ids_sublist.append (List.Sublist.refl _))

/-- A turn touches a node of the walks it moves. -/
theorem Turn.touches {t t' : Traversal σ} (h : Turn d t t') :
    Touches (idsAll t.walks) t.shared t'.shared := by
  obtain ⟨-, -, -, hmove⟩ := h
  rename_i before after w w' _ _ _ _
  have hsub : w.ids ⊆ idsAll (before ++ w :: after) := by
    intro id hid
    rw [idsAll_append]
    exact List.mem_append_right _ (List.mem_append_left _ hid)
  -- the time at which the turn is taken is nothing to the ledger
  cases hmove.touches with
  | quiet hledger hchanges => exact .quiet hledger hchanges
  | starts hid hmark hchanges => exact .starts (hsub hid) hmark hchanges
  | ends hid outcome hrecord hchanges => exact .ends (hsub hid) outcome hrecord hchanges

/-- What is walked stays live, whichever walk moves. -/
theorem Turn.live {t t' : Traversal σ} (h : Turn d t t') (ht : LiveAll t.walks) :
    LiveAll t'.walks := by
  obtain ⟨-, -, -, hmove⟩ := h
  rename_i before after w w' _ _ _ _
  rw [liveAll_iff] at ht ⊢
  intro v hv
  rcases List.mem_append.mp hv with hv | hv
  · exact ht v (List.mem_append_left _ hv)
  · rcases List.mem_cons.mp hv with rfl | hv
    · exact hmove.live (ht w (by simp))
    · exact ht v (by simp [hv])

theorem Turns.live {p : Plan} {sh : Shared σ} {t : Traversal σ} (h : Turns d (.start p sh) t) :
    LiveAll t.walks := by
  induction h with
  | refl => exact liveAll_fresh p.roots none
  | tail _ hturn ih => exact hturn.live ih

/-- There is no endless sequence of turns. -/
theorem turns_finite (run : Nat → Traversal σ) : ∃ n, ¬ Turn d (run n) (run (n + 1)) := by
  by_contra hall
  push Not at hall
  -- after `n` turns the weight has gone down by `n`, which it cannot do for ever
  have hdown : ∀ n, weightAll (run n).walks + n ≤ weightAll (run 0).walks := by
    intro n
    induction n with
    | zero => exact Nat.le_refl _
    | succ n ih =>
      have := (hall n).weight_lt
      omega
  have := hdown (weightAll (run 0).walks + 1)
  omega

/-- As long as something is left to do, a turn is possible: with no call in flight a
waiting node finds room, and a call in flight can end. -/
theorem exists_turn (hpermits : d.permits ≠ some 0) {t : Traversal σ} (hlive : LiveAll t.walks)
    (hleft : t.isOver = false) : ∃ t', Turn d t t' := by
  obtain ⟨walks, sh⟩ := t
  rcases Nat.eq_zero_or_pos (callCountAll walks) with hidle | hcall
  · -- with no call in flight there is a permit for whoever comes first
    have hpermit : HasPermit d.permits walks := by
      intro k hk
      rw [hidle]
      exact Nat.pos_of_ne_zero fun h0 => hpermits (h0 ▸ hk)
    obtain ⟨before, w, after, w', sh', rfl, hmove⟩ :=
      exists_member_move_of_serves d ⟨true, fun _ => true⟩ sh (fun _ => rfl) hlive hleft
    exact ⟨_, .step (fun _ => hpermit) (fun _ _ => hpermit) (Nat.le_refl sh.nowMs) hmove⟩
  · -- with one in flight no permit is needed to go on: that call can end
    obtain ⟨before, w, after, w', sh', rfl, hmove⟩ :=
      exists_member_move_of_call d ⟨false, fun _ => false⟩ sh hcall
    exact ⟨_, .step (by simp) (by simp) (Nat.le_refl sh.nowMs) hmove⟩

/-- An interleaving can be carried on to its end from wherever it is. -/
theorem exists_end (hpermits : d.permits ≠ some 0) {t : Traversal σ} (hlive : LiveAll t.walks) :
    ∃ t', Turns d t t' ∧ t'.isOver = true := by
  -- every turn leaves less to do, so the weight carries the induction
  induction hweight : weightAll t.walks using Nat.strongRecOn generalizing t with
  | _ weight ih =>
    cases hover : t.isOver with
    | true => exact ⟨t, .refl, hover⟩
    | false =>
      obtain ⟨t₁, hturn⟩ := exists_turn hpermits hlive hover
      obtain ⟨t', hturns, hend⟩ := ih _ (hweight ▸ hturn.weight_lt) (hturn.live hlive) rfl
      exact ⟨t', .head hturn hturns, hend⟩

end Traversal

end PlanRunner
