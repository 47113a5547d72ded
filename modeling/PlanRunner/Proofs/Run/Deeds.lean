import PlanRunner.Proofs.Run.Schedule

/-!
# PlanRunner — what the steps of a walk do

Seen from outside, a step of a walk does one of three things: nothing, or it starts the
call of a node, or it takes the outcome of a call in flight. This module reads the deed
off every step, and keeps record of the deeds of a whole traversal. In between time may
pass and the walk may be cancelled.

* `Walk.Deed`, `Walk.Does` — the three deeds, with what each does to the ledger, to the
  world and to the calls in flight;
* `Walk.Move.does`, `Traversal.Turn.does` — every step does one of them, and starts a
  call only with a permit;
* `Ledger.Runs` — the running nodes are those with calls in flight; every deed keeps it;
* `Traversal.Trace` — the deeds of a traversal, whatever happens in between.
-/

namespace PlanRunner

namespace Walk

variable {σ : Type}

-- ---------------------------------------------------------------------------
-- Calls in flight
-- ---------------------------------------------------------------------------

mutual

/-- The calls in flight, with the nodes they are for. -/
def inFlight : Walk → List (Node × Call)
  | .calling node call => [(node, call)]
  | .group _ members => inFlightAll members
  | .chain _ current _ => current.inFlight
  | .fresh _ _ _ => []
  | .queued _ _ _ _ => []
  | .done _ => []

def inFlightAll : List Walk → List (Node × Call)
  | [] => []
  | w :: ws => w.inFlight ++ inFlightAll ws

end

theorem inFlightAll_append (ws vs : List Walk) :
    inFlightAll (ws ++ vs) = inFlightAll ws ++ inFlightAll vs := by
  induction ws with
  | nil => rfl
  | cons w ws ih => simp only [List.cons_append, inFlightAll, ih, List.append_assoc]

theorem inFlightAll_cons_append (before after : List Walk) (w : Walk) :
    inFlightAll (before ++ w :: after) = inFlightAll before ++ (w.inFlight ++ inFlightAll after) := by
  rw [inFlightAll_append]
  rfl

theorem inFlightAll_fresh (parent : Option Value) (nodes : List Node) :
    inFlightAll (nodes.map fun n => .fresh n parent none) = [] := by
  induction nodes with
  | nil => rfl
  | cons n ns ih => simp only [List.map_cons, inFlightAll, inFlight, ih, List.append_nil]

mutual

/-- The calls that are counted against the permits are those in flight. -/
theorem callCount_eq_length : ∀ (w : Walk), w.callCount = w.inFlight.length
  | .calling _ _ => rfl
  | .group _ members => callCountAll_eq_length members
  | .chain _ current _ => callCount_eq_length current
  | .fresh _ _ _ => rfl
  | .queued _ _ _ _ => rfl
  | .done _ => rfl

theorem callCountAll_eq_length : ∀ (ws : List Walk), callCountAll ws = (inFlightAll ws).length
  | [] => rfl
  | w :: ws => by
    rw [callCountAll, inFlightAll, List.length_append, callCount_eq_length w,
      callCountAll_eq_length ws]

end

theorem inFlightAll_done {ws : List Walk} (h : ws.all isDone = true) : inFlightAll ws = [] := by
  induction ws with
  | nil => rfl
  | cons w ws ih =>
    rw [List.all_cons, Bool.and_eq_true] at h
    obtain ⟨output, rfl⟩ := eq_done_of_isDone h.1
    rw [inFlightAll, ih h.2]
    rfl

/-- Closing a group ends no call. -/
theorem inFlight_closeGroup (output : Value) (members : List Walk) :
    (closeGroup output members).inFlight = inFlightAll members := by
  unfold closeGroup
  split
  · rename_i hdone
    exact (inFlightAll_done hdone).symm
  · rfl

/-- The next child of a chain has not been called yet. -/
theorem inFlight_nextInChain (c : Bool) (output : Value) (prev : Option Value) (nodes : List Node) :
    (nextInChain c output prev nodes).inFlight = [] := by
  cases nodes with
  | nil => rfl
  | cons n ns =>
    rw [nextInChain]
    split <;> rfl

/-- Going on in a chain ends no call. -/
theorem inFlight_closeChain (c : Bool) (output : Value) (current : Walk) (later : List Node) :
    (closeChain c output current later).inFlight = current.inFlight := by
  unfold closeChain
  split
  · exact inFlight_nextInChain c output _ later
  · rfl

/-- Nothing is in flight below a node that has just completed. -/
theorem inFlight_descend (c : Bool) (node : Node) (output : Value) :
    (descend c node output).inFlight = [] := by
  unfold descend
  split
  · rfl
  · split
    · exact inFlightAll_fresh (some output) node.children
    · exact inFlight_nextInChain c output none node.children

-- ---------------------------------------------------------------------------
-- Deeds
-- ---------------------------------------------------------------------------

/-- What a step does: nothing that can be seen from outside, or it starts the call of a
node, or it takes the outcome of a call. -/
inductive Deed where
  | rest
  | start (node : Node)
  | finish (node : Node) (outcome : Except LayerError Value)

/-- What a deed does to what the parts of a walk share and to the calls in flight. A
start is one call of the node's layer, and the outcome of a call is its own or, after a
cancellation, that it has been abandoned. -/
inductive Does (d : Dispatch σ) (sh sh' : Shared σ) (calls calls' : List (Node × Call)) :
    Deed → Prop where
  | rest (hledger : sh'.ledger = sh.ledger) (hworld : sh'.world = sh.world)
      (hcalls : calls' = calls) : Does d sh sh' calls calls' .rest
  | start {node : Node} {parent prev : Option Value} {call : Call}
      (hopen : sh.cancelled = false) (hmark : sh.ledger.markRunning node.id = some sh'.ledger)
      (houtcome : (d.registry.invoke node.layer node.function (node.args.resolve parent prev)
        sh.world).1.outcome = call.outcome)
      (hworld : (d.registry.invoke node.layer node.function (node.args.resolve parent prev)
        sh.world).2 = sh'.world)
      (hcalls : calls'.Perm ((node, call) :: calls)) : Does d sh sh' calls calls' (.start node)
  | finish {node : Node} {call : Call} {outcome : Except LayerError Value}
      (hends : Ends d sh node call outcome) (hledger : sh'.ledger = record sh.ledger node outcome)
      (hworld : sh'.world = sh.world) (hcalls : calls.Perm ((node, call) :: calls')) :
      Does d sh sh' calls calls' (.finish node outcome)

section Does

variable {d : Dispatch σ} {sh sh' : Shared σ} {calls calls' : List (Node × Call)} {deed : Deed}

/-- Other calls in flight are nothing to a deed. -/
theorem Does.frame (h : Does d sh sh' calls calls' deed) (before after : List (Node × Call)) :
    Does d sh sh' (before ++ (calls ++ after)) (before ++ (calls' ++ after)) deed := by
  cases h with
  | rest hledger hworld hcalls => exact .rest hledger hworld (by rw [hcalls])
  | start hopen hmark houtcome hworld hcalls =>
    refine .start hopen hmark houtcome hworld ?_
    exact ((hcalls.append_right after).append_left before).trans List.perm_middle
  | finish hends hledger hworld hcalls =>
    refine .finish hends hledger hworld ?_
    exact ((hcalls.append_right after).append_left before).trans List.perm_middle

/-- The time at which a deed is done is nothing to what it does. -/
theorem Does.anytime {nowMs : Nat} (h : Does d { sh with nowMs := nowMs } sh' calls calls' deed) :
    Does d sh sh' calls calls' deed := by
  cases h with
  | rest hledger hworld hcalls => exact .rest hledger hworld hcalls
  | start hopen hmark houtcome hworld hcalls => exact .start hopen hmark houtcome hworld hcalls
  | finish hends hledger hworld hcalls =>
    refine .finish ?_ hledger hworld hcalls
    cases hends with
    | own => exact .own
    | abandoned hcancel => exact .abandoned hcancel

/-- Whether a gate lets calls start. -/
def Gate.Opens (gate : Gate) : Prop := gate.room = true ∨ ∃ ticket, gate.serves ticket = true

/-- The node that a deed starts. -/
def Deed.started? : Deed → Option Node
  | .start node => some node
  | .rest => none
  | .finish _ _ => none

/-- Launching a node starts its call, or does nothing, as after a cancellation. -/
theorem launch_does (d : Dispatch σ) (sh : Shared σ) (node : Node) (parent prev : Option Value) :
    ∃ deed, Does d sh (launch d sh node parent prev).2 [] (launch d sh node parent prev).1.inFlight
      deed ∧ (sh.cancelled = true → deed.started? = none) := by
  unfold launch
  split
  · exact ⟨.rest, .rest rfl rfl rfl, fun _ => rfl⟩
  · rename_i hopen
    split
    · exact ⟨.rest, .rest rfl rfl rfl, fun _ => rfl⟩
    · rename_i ledger hmark
      refine ⟨.start node, ?_, fun hcancel => absurd hcancel hopen⟩
      exact .start (Bool.eq_false_iff.mpr hopen) hmark rfl rfl (.refl _)

/-- A visit starts a call only where there is room. -/
theorem visit_does (d : Dispatch σ) (room : Bool) (sh : Shared σ) (node : Node)
    (parent prev : Option Value) :
    ∃ deed, Does d sh (visit d room sh node parent prev).2 []
      (visit d room sh node parent prev).1.inFlight deed ∧
        (room = false → deed.started? = none) := by
  unfold visit
  split
  · split
    · exact ⟨.rest, .rest rfl rfl (inFlight_descend _ _ _), fun _ => rfl⟩
    · exact ⟨.rest, .rest rfl rfl rfl, fun _ => rfl⟩
  · exact ⟨.rest, .rest rfl rfl rfl, fun _ => rfl⟩
  · exact ⟨.rest, .rest rfl rfl rfl, fun _ => rfl⟩
  · split
    · rename_i hroom
      obtain ⟨deed, hdoes, hstart⟩ := launch_does d sh node parent prev
      refine ⟨deed, hdoes, fun hclosed => hstart ?_⟩
      -- without room a node is launched only to find the walk cancelled
      rwa [hclosed, Bool.false_or] at hroom
    · exact ⟨.rest, .rest rfl rfl rfl, fun _ => rfl⟩

/-- The end of a call is one deed, whatever its outcome leads to. -/
theorem settle_does {node : Node} {call : Call} {outcome : Except LayerError Value}
    (hends : Ends d sh node call outcome) :
    Does d sh (settle sh node outcome).2 [(node, call)] (settle sh node outcome).1.inFlight
      (.finish node outcome) := by
  have hidle : (settle sh node outcome).1.inFlight = [] := by
    unfold settle
    cases outcome with
    | ok value => exact inFlight_descend _ _ _
    | error e => rfl
  rw [hidle]
  unfold settle
  cases outcome with
  | ok value => exact .finish hends rfl rfl (.refl _)
  | error e => exact .finish hends rfl rfl (.refl _)

/-- Wherever a step is taken, it does one of the deeds, and starts a call only through an
open gate. -/
theorem Move.does {gate : Gate} {w w' : Walk} (h : Move d gate sh w w' sh') :
    ∃ deed, Does d sh sh' w.inFlight w'.inFlight deed ∧ (deed.started? ≠ none → gate.Opens) := by
  -- Induction on the move: a leaf does the deed, and what is around it only keeps its other calls
  -- in flight.
  induction h with
  | visit node parent prev =>
    obtain ⟨deed, hdoes, hstart⟩ := visit_does d gate.room sh node parent prev
    refine ⟨deed, hdoes, fun hne => .inl ?_⟩
    by_contra hroom
    exact hne (hstart (Bool.eq_false_iff.mpr hroom))
  | @launch node parent prev ticket hserve =>
    obtain ⟨deed, hdoes, hstart⟩ := launch_does d sh node parent prev
    refine ⟨deed, hdoes, fun hne => .inr ⟨ticket, ?_⟩⟩
    exact hserve.resolve_left fun hcancel => hne (hstart hcancel)
  | settle hends => exact ⟨_, settle_does hends, fun hne => absurd rfl hne⟩
  | @member output before after w w' sh' _ ih =>
    obtain ⟨deed, hdoes, hstart⟩ := ih
    refine ⟨deed, ?_, hstart⟩
    rw [inFlight_closeGroup, inFlight, inFlightAll_cons_append, inFlightAll_cons_append]
    exact hdoes.frame _ _
  | @current output w w' later sh' _ ih =>
    obtain ⟨deed, hdoes, hstart⟩ := ih
    refine ⟨deed, ?_, hstart⟩
    rw [inFlight_closeChain]
    exact hdoes

end Does

end Walk

-- ---------------------------------------------------------------------------
-- Running nodes and calls in flight
-- ---------------------------------------------------------------------------

/-- The running nodes of a ledger are those with calls in flight, each with one call. -/
structure Ledger.Runs (l : Ledger) (calls : List (Node × Call)) : Prop where
  running : l.running.Perm (calls.map fun c => c.1.id)
  distinct : l.running.Nodup
  status : ∀ id ∈ l.running, l.status id = .running

/-- A ledger without running nodes of which every completed node has its output: what an
attempt leaves to the next one. -/
structure Ledger.AtRest (l : Ledger) : Prop where
  running : l.running = []
  valued : l.Valued

/-- What a deed does to the statuses of the nodes: a pending node starts to run, and a
running node gets its outcome. -/
def Walk.Deed.Changes (before after : String → Status) : Walk.Deed → Prop
  | .rest => after = before
  | .start node => before node.id = .pending ∧ after = Function.update before node.id .running
  | .finish node outcome =>
    before node.id = .running ∧
      after = Function.update before node.id (Fragment.ofOutcome outcome).status

namespace Walk

variable {σ : Type}

theorem record_eq (l : Ledger) (node : Node) (outcome : Except LayerError Value) :
    record l node outcome = (l.log (logLine node outcome)).enter node.id (.ofOutcome outcome) := by
  cases outcome <;> rfl

/-- An outcome sets the status of its node. -/
theorem status_record (l : Ledger) (node : Node) (outcome : Except LayerError Value) :
    (record l node outcome).status =
      Function.update l.status node.id (Fragment.ofOutcome outcome).status := by
  rw [record_eq, Ledger.status_enter]
  rfl

variable {d : Dispatch σ} {sh sh' : Shared σ} {calls calls' : List (Node × Call)} {deed : Deed}

/-- The nodes with calls in flight are running. -/
theorem status_of_mem_calls {l : Ledger} (h : l.Runs calls) {c : Node × Call} (hc : c ∈ calls) :
    l.status c.1.id = .running :=
  h.status _ (h.running.mem_iff.mpr (List.mem_map_of_mem hc))

/-- Every running node has a call in flight. -/
theorem exists_call_of_status {l : Ledger} (h : l.Runs calls) {id : String}
    (hid : l.status id = .running) : ∃ c ∈ calls, c.1.id = id := by
  have hmem := (Ledger.status_eq_running_iff.mp hid).2.2
  exact List.mem_map.mp (h.running.mem_iff.mp hmem)

/-- What is done to the calls is what changes in the statuses. -/
theorem Does.changes (h : Does d sh sh' calls calls' deed) (hruns : sh.ledger.Runs calls) :
    deed.Changes sh.ledger.status sh'.ledger.status := by
  cases h with
  | rest hledger _ _ => exact congrArg Ledger.status hledger
  | start _ hmark _ _ _ => exact Ledger.status_markRunning hmark
  | finish _ hledger _ hcalls =>
    have hmem := hcalls.mem_iff.mpr List.mem_cons_self
    exact ⟨status_of_mem_calls hruns hmem, by rw [hledger, status_record]⟩

/-- A deed starts and ends calls together with the nodes they are for. -/
theorem Does.runs (h : Does d sh sh' calls calls' deed) (hruns : sh.ledger.Runs calls) :
    sh'.ledger.Runs calls' := by
  have hchanges := h.changes hruns
  cases h with
  | rest hledger _ hcalls =>
    rw [hledger, hcalls]
    exact hruns
  -- a node that starts was not running, so its call is the only one for it
  | @start node _ _ call _ hmark _ _ hcalls =>
    obtain ⟨-, -, hfresh, hledger⟩ := Ledger.markRunning_eq_some_iff.mp hmark
    have hrunning : sh'.ledger.running = IdSet.insert node.id sh.ledger.running := by
      rw [hledger]
    have hperm := IdSet.insert_perm hfresh
    refine ⟨?_, ?_, ?_⟩
    · rw [hrunning]
      exact (hperm.trans (hruns.running.cons _)).trans (hcalls.map fun c : Node × Call => c.1.id).symm
    · rw [hrunning, hperm.nodup_iff]
      exact List.nodup_cons.mpr ⟨hfresh, hruns.distinct⟩
    · intro id hid
      rw [hrunning, IdSet.mem_insert] at hid
      rw [hchanges.2]
      by_cases heq : id = node.id
      · rw [heq, Function.update_self]
      · rw [Function.update_of_ne heq]
        exact hruns.status id (hid.resolve_left heq)
  | @finish node call outcome _ hledger _ hcalls =>
    have hmem : node.id ∈ sh.ledger.running :=
      hruns.running.mem_iff.mpr ((hcalls.map fun c : Node × Call => c.1.id).mem_iff.mpr List.mem_cons_self)
    have hrunning : sh'.ledger.running = IdSet.erase node.id sh.ledger.running := by
      rw [hledger, record_eq, Ledger.enter_running]
      rfl
    have hperm := IdSet.erase_perm hruns.distinct hmem
    refine ⟨?_, ?_, ?_⟩
    · rw [hrunning]
      exact ((hperm.symm.trans hruns.running).trans (hcalls.map fun c : Node × Call => c.1.id)).cons_inv
    · rw [hrunning]
      exact (List.nodup_cons.mp (hperm.nodup_iff.mp hruns.distinct)).2
    · intro id hid
      rw [hrunning, IdSet.mem_erase] at hid
      rw [hchanges.2, Function.update_of_ne hid.2]
      exact hruns.status id hid.1

/-- No deed leaves a completed node without a value. -/
theorem Does.valued (h : Does d sh sh' calls calls' deed) (hl : sh.ledger.Valued) :
    sh'.ledger.Valued := by
  cases h with
  | rest hledger _ _ =>
    rw [hledger]
    exact hl
  | start _ hmark _ _ _ => exact hl.markRunning hmark
  | @finish node _ outcome _ hledger _ _ =>
    rw [hledger, record_eq]
    have hlog : (sh.ledger.log (logLine node outcome)).Valued := hl
    exact hlog.enter _ _

end Walk

-- ---------------------------------------------------------------------------
-- The deeds of a traversal
-- ---------------------------------------------------------------------------

namespace Traversal

open Walk

variable {σ : Type} {d : Dispatch σ}

/-- The calls in flight of a forest. -/
def inFlight (t : Traversal σ) : List (Node × Call) := inFlightAll t.walks

/-- What a turn from one forest to another does. -/
abbrev Does (d : Dispatch σ) (t t' : Traversal σ) (deed : Deed) : Prop :=
  Walk.Does d t.shared t'.shared t.inFlight t'.inFlight deed

/-- Every turn does one of the deeds, and starts a call only with a permit. -/
theorem Turn.does {t t' : Traversal σ} (h : Turn d t t') :
    ∃ deed, Does d t t' deed ∧ (deed.started? ≠ none → HasPermit d.permits t.walks) := by
  obtain ⟨hroom, hserves, -, hmove⟩ := h
  rename_i before after _ _ _ _ _ _
  obtain ⟨deed, hdoes, hstart⟩ := hmove.does
  refine ⟨deed, ?_, fun hne => ?_⟩
  · -- the walks that stand still keep their calls in flight, on either side
    have hframe := hdoes.anytime.frame (inFlightAll before) (inFlightAll after)
    rw [← inFlightAll_cons_append, ← inFlightAll_cons_append] at hframe
    exact hframe
  · rcases hstart hne with hopen | ⟨ticket, hopen⟩
    · exact hroom hopen
    · exact hserves ticket hopen

/-- The deeds of a traversal, the latest last. In between time may pass, the world may
change and the walk may be cancelled; a cancellation is never taken back. -/
inductive Trace (d : Dispatch σ) (first : Traversal σ) : List Deed → Traversal σ → Prop where
  | nil : Trace d first [] first
  | turn {deeds : List Deed} {t t' : Traversal σ} {deed : Deed} (h : Trace d first deeds t)
      (hturn : Turn d t t') (hdoes : Does d t t' deed) : Trace d first (deeds ++ [deed]) t'
  | meanwhile {deeds : List Deed} {t : Traversal σ} {sh : Shared σ} (h : Trace d first deeds t)
      (hledger : sh.ledger = t.shared.ledger)
      (hcancel : t.shared.cancelled = true → sh.cancelled = true) :
      Trace d first deeds ⟨t.walks, sh⟩

end Traversal

end PlanRunner
