import PlanRunner.Proofs.Run.Conduct

/-!
# PlanRunner — two runs in lockstep

Of two runs the first goes the way of the second, some time later and with some lines more in its
log. What a run does depends neither on the clock nor on its log: calls are awaited by how long they
take, and no prompt and no decision looks at the log. So the first run does whatever the second one
does, in worlds that are alike to the layers and to the language models that are asked.

* `Ledger.Adds`, `Walk.delay` — more lines in the log, and calls that end later;
* `Services.Blind` — worlds that cannot be told apart without a certain task;
* `Run.Abreast` — the two runs with what is around them;
* `Run.Abreast.step?` — each step of one is a step of the other;
* `Run.Abreast.drive` — and so both get to their ends.
-/

namespace PlanRunner

-- ---------------------------------------------------------------------------
-- Lines in a log
-- ---------------------------------------------------------------------------

namespace Ledger

/-- The first ledger is the second with some lines more in its log. -/
def Adds (lines : List String) (l m : Ledger) : Prop :=
  ∃ before after, m.logs = before ++ after ∧ l = { m with logs := before ++ lines ++ after }

variable {lines : List String} {l m : Ledger}

/-- Whatever only reads sets and fragments cannot see the lines that were added. -/
theorem Adds.agrees (h : Adds lines l m) : l.Agrees m := by
  obtain ⟨before, after, -, rfl⟩ := h
  exact ⟨rfl, rfl, rfl, rfl, rfl⟩

/-- The added lines stand together, at one place of the log. -/
theorem Adds.logs (h : Adds lines l m) :
    ∃ before after, l.logs = before ++ lines ++ after ∧ m.logs = before ++ after := by
  obtain ⟨before, after, hlogs, rfl⟩ := h
  exact ⟨before, after, rfl, hlogs⟩

theorem Adds.log (h : Adds lines l m) (line : String) : Adds lines (l.log line) (m.log line) := by
  obtain ⟨before, after, hlogs, rfl⟩ := h
  refine ⟨before, after ++ [line], ?_, ?_⟩
  · rw [Ledger.log, hlogs, List.append_assoc]
  · rw [Ledger.log, Ledger.log]
    simp only [List.append_assoc]

/-- So does a line for each of some ids. -/
theorem Adds.logAll (h : Adds lines l m) (line : String → String) (ids : List String) :
    Adds lines (ids.foldl (fun l id => l.log (line id)) l)
      (ids.foldl (fun l id => l.log (line id)) m) := by
  induction ids generalizing l m with
  | nil => exact h
  | cons id ids ih => exact ih (h.log (line id))

/-- An operation that leaves the log alone. -/
theorem Adds.map (h : Adds lines l m) (op : Ledger → Ledger)
    (hop : ∀ (m : Ledger) logs, op { m with logs := logs } = { op m with logs := logs }) :
    Adds lines (op l) (op m) := by
  obtain ⟨before, after, hlogs, rfl⟩ := h
  have hself : op m = { op m with logs := m.logs } := hop m m.logs
  refine ⟨before, after, ?_, hop m _⟩
  rw [hself]
  exact hlogs

/-- Both ledgers let a node start, or neither does. -/
theorem Adds.markRunning (h : Adds lines l m) (id : String) :
    Option.Rel (Adds lines) (l.markRunning id) (m.markRunning id) := by
  have hpending : l.isPending id = m.isPending id := by
    rw [isPending, isPending, h.agrees.completed, h.agrees.failed, h.agrees.running]
  rw [Ledger.markRunning, Ledger.markRunning, hpending]
  by_cases hid : m.isPending id = true
  · rw [if_pos hid, if_pos hid]
    exact .some (h.map (fun m => { m with running := IdSet.insert id m.running }) fun _ _ => rfl)
  · rw [if_neg hid, if_neg hid]
    exact .none

theorem Agrees.failures (h : l.Agrees m) : l.failures = m.failures := by
  rw [Ledger.failures, Ledger.failures, h.failed, h.fragments]

end Ledger

/-- An outcome is recorded in both alike, with the line a failure writes. -/
theorem Walk.record_adds {lines : List String} {l m : Ledger} (h : l.Adds lines m) (node : Node)
    (outcome : Except LayerError Value) :
    (Walk.record l node outcome).Adds lines (Walk.record m node outcome) := by
  have hlogged := h.log (logLine node outcome)
  cases outcome with
  | ok value => exact hlogged.map (·.markCompleted node.id value) fun _ _ => rfl
  | error e => exact hlogged.map (·.markFailed node.id e.message) fun _ _ => rfl

theorem Adjusting.finish_adds {lines : List String} {l m : Ledger} (h : l.Adds lines m)
    (named resets : List String) : (finish named resets l).Adds lines (finish named resets m) :=
  (h.map (·.reset resets) fun _ _ => rfl).logAll _ named

/-- What comes of a retry with one ledger and with another. -/
inductive Retry.Adds (lines : List String) : Retry → Retry → Prop where
  | again (plan : Plan) {l m : Ledger} (h : l.Adds lines m) : Adds lines (.again plan l) (.again plan m)
  | stop (reason : String) : Adds lines (.stop reason) (.stop reason)

/-- A graft is accepted in both or turned down in both: it looks at the plan, and at what the ledger
kept. -/
theorem replan_adds {lines : List String} {l m : Ledger} (h : l.Adds lines m) (p : Plan)
    (nodeId : String) (subtree : Json) :
    (replan p l nodeId subtree).Adds lines (replan p m nodeId subtree) := by
  unfold replan
  split
  · split
    · exact .stop _
    · split
      · rename_i next dropped _ _
        exact .again next ((h.map
          (fun m => Ledger.carryOver next.count m (keptIds p dropped)) fun _ _ => rfl).log _)
      · exact .stop _
  · exact .stop _

-- ---------------------------------------------------------------------------
-- Calls that end later
-- ---------------------------------------------------------------------------

namespace Walk

variable {ms : Nat}

mutual

/-- A walk whose calls all end some time later. -/
def delay (ms : Nat) : Walk → Walk
  | .fresh node parent prev => .fresh node parent prev
  | .queued node parent prev ticket => .queued node parent prev ticket
  | .calling node call => .calling node { call with dueMs := call.dueMs + ms }
  | .group output members => .group output (delayAll ms members)
  | .chain output current later => .chain output (current.delay ms) later
  | .done output => .done output

def delayAll (ms : Nat) : List Walk → List Walk
  | [] => []
  | w :: ws => w.delay ms :: delayAll ms ws

end

theorem isDone_delay (w : Walk) : (w.delay ms).isDone = w.isDone := by
  cases w <;> rfl

theorem all_isDone_delayAll (ws : List Walk) : (delayAll ms ws).all isDone = ws.all isDone := by
  induction ws with
  | nil => rfl
  | cons w ws ih => rw [delayAll, List.all_cons, List.all_cons, isDone_delay, ih]

theorem delayAll_fresh (parent prev : Option Value) (nodes : List Node) :
    delayAll ms (nodes.map fun n => .fresh n parent prev) = nodes.map fun n => .fresh n parent prev := by
  induction nodes with
  | nil => rfl
  | cons n ns ih => rw [List.map_cons, delayAll, delay, ih]

/-- What a group hands on does not depend on when its members' calls end. -/
theorem delay_closeGroup (output : Value) (members : List Walk) :
    closeGroup output (delayAll ms members) = (closeGroup output members).delay ms := by
  unfold closeGroup
  rw [all_isDone_delayAll]
  split
  · rfl
  · rfl

/-- A chain goes on to a node that has not started, which has no call to delay. -/
theorem delay_nextInChain (cancelled : Bool) (output : Value) (prev : Option Value)
    (nodes : List Node) :
    (nextInChain cancelled output prev nodes).delay ms = nextInChain cancelled output prev nodes := by
  unfold nextInChain
  split
  · rfl
  · split
    · rfl
    · rfl

theorem delay_closeChain (cancelled : Bool) (output : Value) (current : Walk) (later : List Node) :
    closeChain cancelled output (current.delay ms) later =
      (closeChain cancelled output current later).delay ms := by
  cases current with
  | done prev => exact (delay_nextInChain cancelled output prev later).symm
  | fresh node parent prev => rfl
  | queued node parent prev ticket => rfl
  | calling node call => rfl
  | group output members => rfl
  | chain output current later => rfl

/-- Below a node that has its output nothing is in flight yet. -/
theorem delay_descend (cancelled : Bool) (node : Node) (output : Value) :
    (descend cancelled node output).delay ms = descend cancelled node output := by
  unfold descend
  split
  · rfl
  · split
    · rw [delay, delayAll_fresh]
    · exact delay_nextInChain cancelled output none node.children

mutual

/-- A later end is still a call in flight: delaying does not free a permit. -/
theorem callCount_delay : ∀ w : Walk, (w.delay ms).callCount = w.callCount
  | .fresh _ _ _ => rfl
  | .queued _ _ _ _ => rfl
  | .calling _ _ => rfl
  | .group _ members => callCountAll_delay members
  | .chain _ current _ => callCount_delay current
  | .done _ => rfl

theorem callCountAll_delay : ∀ ws : List Walk, callCountAll (delayAll ms ws) = callCountAll ws
  | [] => rfl
  | w :: ws => by
    rw [delayAll, callCountAll, callCountAll, callCount_delay w, callCountAll_delay ws]

end

mutual

/-- The queue is the same, in the same order. -/
theorem tickets_delay : ∀ w : Walk, (w.delay ms).tickets = w.tickets
  | .fresh _ _ _ => rfl
  | .queued _ _ _ _ => rfl
  | .calling _ _ => rfl
  | .group _ members => ticketsAll_delay members
  | .chain _ current _ => tickets_delay current
  | .done _ => rfl

theorem ticketsAll_delay : ∀ ws : List Walk, ticketsAll (delayAll ms ws) = ticketsAll ws
  | [] => rfl
  | w :: ws => by
    rw [delayAll, ticketsAll, ticketsAll, tickets_delay w, ticketsAll_delay ws]

end

/-- There is room in the one execution exactly when there is in the other. -/
theorem hasRoom_delay (permits : Option Nat) (ws : List Walk) :
    hasRoom permits (delayAll ms ws) = hasRoom permits ws := by
  unfold hasRoom
  rw [callCountAll_delay, ticketsAll_delay]

/-- The same ticket is served next in both. -/
theorem mayServe_delay (permits : Option Nat) (ws : List Walk) :
    mayServe permits (delayAll ms ws) = mayServe permits ws := by
  funext ticket
  unfold mayServe
  rw [callCountAll_delay, ticketsAll_delay]

end Walk

-- ---------------------------------------------------------------------------
-- Steps of an execution
-- ---------------------------------------------------------------------------

section Walks

variable {σ : Type} {Same : σ → σ → Prop} {ms : Nat} {lines : List String}

/-- Layers do the same in worlds that are alike, and leave worlds that are alike. -/
def Registry.Blind (Same : σ → σ → Prop) (registry : Registry σ) : Prop :=
  ∀ name function args {v w : σ}, Same v w →
    (registry.invoke name function args v).1 = (registry.invoke name function args w).1 ∧
      Same (registry.invoke name function args v).2 (registry.invoke name function args w).2

/-- What the parts of the first execution share is what those of the second do, some time later
and with some lines more in the log. Neither has been cancelled. -/
structure Shared.Trails (Same : σ → σ → Prop) (ms : Nat) (lines : List String) (sh th : Shared σ) :
    Prop where
  ledger : sh.ledger.Adds lines th.ledger
  world : Same sh.world th.world
  nextTicket : sh.nextTicket = th.nextTicket
  cancelledAt : sh.cancelledAt = none
  cancelledAt' : th.cancelledAt = none
  nowMs : sh.nowMs = th.nowMs + ms

namespace Walk

variable {d : Dispatch σ} {sh th : Shared σ}

/-- A walk of the first execution is that of the second, with calls that end later. -/
def Trails (Same : σ → σ → Prop) (ms : Nat) (lines : List String) (x y : Walk × Shared σ) : Prop :=
  x.1 = y.1.delay ms ∧ x.2.Trails Same ms lines y.2

def TrailsAll (Same : σ → σ → Prop) (ms : Nat) (lines : List String) (x y : List Walk × Shared σ) :
    Prop :=
  x.1 = delayAll ms y.1 ∧ x.2.Trails Same ms lines y.2

theorem cancelled_of_none {sh : Shared σ} (h : sh.cancelledAt = none) : sh.cancelled = false := by
  rw [Shared.cancelled, h]
  rfl

/-- A node starts in both or in neither, on arguments that are alike, and its call ends as much
later as the clock runs behind. -/
theorem launch_trails (hd : d.registry.Blind Same) (h : sh.Trails Same ms lines th) (node : Node)
    (parent prev : Option Value) :
    Trails Same ms lines (launch d sh node parent prev) (launch d th node parent prev) := by
  have hledger := h.ledger.markRunning node.id
  obtain ⟨hreply, hworld⟩ := hd node.layer node.function (node.args.resolve parent prev) h.world
  unfold launch
  rw [cancelled_of_none h.cancelledAt, cancelled_of_none h.cancelledAt']
  simp only [Bool.false_eq_true, if_false]
  -- the two ledgers agree on whether the node may start, so the mixed cases cannot occur
  cases hsh : sh.ledger.markRunning node.id with
  | none =>
    rw [hsh] at hledger
    cases hth : th.ledger.markRunning node.id with
    | none => exact ⟨rfl, h⟩
    | some m =>
      rw [hth] at hledger
      exact absurd hledger (by rintro ⟨⟩)
  | some l =>
    rw [hsh] at hledger
    cases hth : th.ledger.markRunning node.id with
    | none =>
      rw [hth] at hledger
      exact absurd hledger (by rintro ⟨⟩)
    | some m =>
      rw [hth] at hledger
      cases hledger with
      | some hadds =>
        refine ⟨?_, hadds, hworld, h.nextTicket, h.cancelledAt, h.cancelledAt', h.nowMs⟩
        simp only [Shared.announce, delay, hreply, h.nowMs]
        rw [Nat.add_right_comm]

/-- A visit looks at the status and the value of its node, which the two ledgers share. -/
theorem visit_trails (hd : d.registry.Blind Same) (h : sh.Trails Same ms lines th) (room : Bool)
    (node : Node) (parent prev : Option Value) :
    Trails Same ms lines (visit d room sh node parent prev) (visit d room th node parent prev) := by
  have hagrees := h.ledger.agrees
  unfold visit
  rw [hagrees.status, hagrees.value?, cancelled_of_none h.cancelledAt,
    cancelled_of_none h.cancelledAt']
  split
  · split
    · exact ⟨(delay_descend _ _ _).symm, h⟩
    · exact ⟨rfl, h⟩
  · exact ⟨rfl, h⟩
  · exact ⟨rfl, h⟩
  · split
    · exact launch_trails hd h node parent prev
    · refine ⟨?_, h.ledger, h.world, ?_, h.cancelledAt, h.cancelledAt', h.nowMs⟩
      · rw [delay, h.nextTicket]
      · rw [h.nextTicket]

/-- An outcome is recorded, and descended from, in both alike. -/
theorem settle_trails (h : sh.Trails Same ms lines th) (node : Node)
    (outcome : Except LayerError Value) :
    Trails Same ms lines (settle sh node outcome) (settle th node outcome) := by
  have htrails : Shared.Trails Same ms lines
      ({ sh with ledger := record sh.ledger node outcome } : Shared σ).announce
      ({ th with ledger := record th.ledger node outcome } : Shared σ).announce :=
    ⟨record_adds h.ledger node outcome, h.world, h.nextTicket, h.cancelledAt, h.cancelledAt', h.nowMs⟩
  unfold settle
  cases outcome with
  | ok value =>
    refine ⟨?_, htrails⟩
    simp only [cancelled_of_none htrails.cancelledAt, cancelled_of_none htrails.cancelledAt',
      delay_descend]
  | error e => exact ⟨rfl, htrails⟩

mutual

/-- A poke moves both walks or neither. A call in flight has ended in the delayed walk exactly when
it has in the other, since both its end and the clock are `ms` later. -/
theorem poke?_trails (hd : d.registry.Blind Same) (gate : Gate) (h : sh.Trails Same ms lines th) :
    ∀ w : Walk, Option.Rel (Trails Same ms lines) ((w.delay ms).poke? d gate sh) (w.poke? d gate th)
  | .fresh node parent prev => by
    rw [delay, poke?, poke?]
    exact .some (visit_trails hd h gate.room node parent prev)
  | .queued node parent prev ticket => by
    rw [delay, poke?, poke?, cancelled_of_none h.cancelledAt, cancelled_of_none h.cancelledAt']
    split
    · exact .some (launch_trails hd h node parent prev)
    · exact .none
  | .calling node call => by
    -- both sides of the comparison are shifted by the same time
    have hends : endsAt d sh { call with dueMs := call.dueMs + ms } ≤ sh.nowMs ↔
        endsAt d th call ≤ th.nowMs := by
      rw [endsAt, endsAt, h.cancelledAt, h.cancelledAt', h.nowMs]
      exact Nat.add_le_add_iff_right
    have hending : ending d sh node { call with dueMs := call.dueMs + ms } = ending d th node call := by
      rw [ending, ending, h.cancelledAt, h.cancelledAt']
    rw [delay, poke?, poke?, hending]
    by_cases hnow : endsAt d th call ≤ th.nowMs
    · rw [if_pos hnow, if_pos (hends.mpr hnow)]
      exact .some (settle_trails h node _)
    · rw [if_neg hnow, if_neg (mt hends.mp hnow)]
      exact .none
  | .group output members => by
    have hmembers := pokeAll?_trails hd gate h members
    rw [delay, poke?, poke?]
    revert hmembers
    generalize pokeAll? d gate sh (delayAll ms members) = x
    generalize pokeAll? d gate th members = y
    rintro (⟨hwalks, htrails⟩ | _)
    · refine .some ⟨?_, htrails⟩
      rw [hwalks]
      exact delay_closeGroup _ _
    · exact .none
  | .chain output current later => by
    have hcurrent := poke?_trails hd gate h current
    rw [delay, poke?, poke?]
    revert hcurrent
    generalize (current.delay ms).poke? d gate sh = x
    generalize current.poke? d gate th = y
    rintro (⟨hwalk, htrails⟩ | _)
    · refine .some ⟨?_, htrails⟩
      simp only [cancelled_of_none htrails.cancelledAt, cancelled_of_none htrails.cancelledAt',
        hwalk, delay_closeChain]
    · exact .none
  | .done output => by
    rw [delay, poke?, poke?]
    exact .none

/-- The first walk of the list that can move is the same in both. -/
theorem pokeAll?_trails (hd : d.registry.Blind Same) (gate : Gate)
    (h : sh.Trails Same ms lines th) : ∀ ws : List Walk,
      Option.Rel (TrailsAll Same ms lines) (pokeAll? d gate sh (delayAll ms ws)) (pokeAll? d gate th ws)
  | [] => .none
  | w :: ws => by
    have hfirst := poke?_trails hd gate h w
    have hrest := pokeAll?_trails hd gate h ws
    rw [delayAll, pokeAll?, pokeAll?]
    revert hfirst hrest
    generalize (w.delay ms).poke? d gate sh = x
    generalize w.poke? d gate th = y
    generalize pokeAll? d gate sh (delayAll ms ws) = xs
    generalize pokeAll? d gate th ws = ys
    rintro (⟨hwalk, htrails⟩ | _) hrest
    · exact .some ⟨by rw [hwalk, delayAll], htrails⟩
    · rcases hrest with ⟨hwalks, htrails⟩ | _
      · exact .some ⟨by rw [hwalks, delayAll], htrails⟩
      · exact .none

end

/-- A step of the whole list is a poke under one of two gates, and the gates are the same: they
count calls and tickets. -/
theorem stepAll?_trails (hd : d.registry.Blind Same) (h : sh.Trails Same ms lines th)
    (ws : List Walk) :
    Option.Rel (TrailsAll Same ms lines) (stepAll? d sh (delayAll ms ws)) (stepAll? d th ws) := by
  have hstarts := pokeAll?_trails hd ⟨hasRoom d.permits ws, fun _ => false⟩ h ws
  have hserves := pokeAll?_trails hd ⟨hasRoom d.permits ws, mayServe d.permits ws⟩ h ws
  unfold stepAll?
  rw [hasRoom_delay, mayServe_delay]
  simp only
  revert hstarts
  generalize pokeAll? d ⟨hasRoom d.permits ws, fun _ => false⟩ sh (delayAll ms ws) = x
  generalize pokeAll? d ⟨hasRoom d.permits ws, fun _ => false⟩ th ws = y
  rintro (hx | _)
  · exact .some hx
  · exact hserves

mutual

/-- The next call to end is the same one, as much later. -/
theorem nextEnd?_delay (h : sh.Trails Same ms lines th) :
    ∀ w : Walk, (w.delay ms).nextEnd? d sh = (w.nextEnd? d th).map (· + ms)
  | .fresh _ _ _ => rfl
  | .queued _ _ _ _ => rfl
  | .calling node call => by
    rw [delay, nextEnd?, nextEnd?, endsAt, endsAt, h.cancelledAt, h.cancelledAt']
    rfl
  | .group _ members => by
    rw [delay, nextEnd?, nextEnd?, nextEndAll?_delay h members]
  | .chain _ current _ => by
    rw [delay, nextEnd?, nextEnd?, nextEnd?_delay h current]
  | .done _ => rfl

/-- The earliest end of the list moves by the same time as each end in it. -/
theorem nextEndAll?_delay (h : sh.Trails Same ms lines th) :
    ∀ ws : List Walk, nextEndAll? d sh (delayAll ms ws) = (nextEndAll? d th ws).map (· + ms)
  | [] => rfl
  | w :: ws => by
    rw [delayAll, nextEndAll?, nextEndAll?, nextEnd?_delay h w, nextEndAll?_delay h ws]
    cases w.nextEnd? d th with
    | none => rfl
    | some a =>
      cases nextEndAll? d th ws with
      | none => rfl
      | some b =>
        simp only [Option.map_some, Option.some.injEq]
        omega

end

end Walk

end Walks

-- ---------------------------------------------------------------------------
-- Steps of a run
-- ---------------------------------------------------------------------------

/-- Worlds that are alike are so to layers, and to language models for every task but the check
whether a query can be answered directly. -/
structure Services.Blind {σ : Type} (Same : σ → σ → Prop) (s : Services σ) : Prop where
  registry : s.registry.Blind Same
  client : ∀ task, task ≠ .directAnswerCheck → ∀ {v w : σ}, Same v w →
    (s.createClient task v).1 = (s.createClient task w).1 ∧
      Same (s.createClient task v).2 (s.createClient task w).2
  complete : ∀ task, task ≠ .directAnswerCheck → ∀ {u : σ} {client : Client σ},
    (s.createClient task u).1 = .ok client → ∀ prompt {v w : σ}, Same v w →
      (client.complete prompt v).1 = (client.complete prompt w).1 ∧
        Same (client.complete prompt v).2 (client.complete prompt w).2

/-- The same services, with or without direct answers. -/
def Services.answering {σ : Type} (answers : Bool) (s : Services σ) : Services σ :=
  { s with settings := { s.settings with directAnswer := answers } }

/-- The phase of a run some time later. -/
def Phase.delay (ms : Nat) : Phase → Phase
  | .starting request => .starting request
  | .asking question answer => .asking question { answer with dueMs := answer.dueMs + ms }
  | .executing walks nextTicket => .executing (Walk.delayAll ms walks) nextTicket
  | .over error => .over error

/-- The check whether the query can be answered directly is over, or was never made. -/
def Phase.Checked : Phase → Prop
  | .starting _ => False
  | .asking question _ => question.task ≠ .directAnswerCheck
  | .executing _ _ => True
  | .over _ => True

section Runs

variable {σ : Type} {Same : σ → σ → Prop} {ms : Nat} {lines : List String}

/-- What is around the first run is what is around the second, some time later. The states that
were published are left aside, because they have the logs in them. -/
structure Surroundings.Trails (Same : σ → σ → Prop) (ms : Nat) (a b : Surroundings σ) : Prop where
  nowMs : a.nowMs = b.nowMs + ms
  world : Same a.world b.world
  context : a.context = b.context

namespace Run

/-- The first run is the second, which has not been cancelled, some time later and with some lines
more in its log. -/
def Trails (ms : Nat) (lines : List String) (r q : Run) : Prop :=
  q.cancelledAt = none ∧
    ∃ ledger : Ledger, ledger.Adds lines q.ledger ∧
      r = { q with ledger := ledger, phase := q.phase.delay ms }

/-- The first run with what is around it goes the way of the second one. -/
structure Abreast (Same : σ → σ → Prop) (ms : Nat) (lines : List String)
    (x y : Surroundings σ × Run) : Prop where
  around : x.1.Trails Same ms y.1
  run : x.2.Trails ms lines y.2
  checked : y.2.phase.Checked

variable {s : Services σ} {a b : Surroundings σ} {r q : Run}

/-- A change of both ledgers that keeps the added lines apart keeps the runs so. -/
theorem Trails.withLedger (h : Trails ms lines r q) {l m : Ledger} (hadds : l.Adds lines m) :
    Trails ms lines { r with ledger := l } { q with ledger := m } := by
  obtain ⟨hfree, -, -, rfl⟩ := h
  exact ⟨hfree, l, hadds, rfl⟩

theorem Trails.adds (h : Trails ms lines r q) : r.ledger.Adds lines q.ledger := by
  obtain ⟨-, ledger, hadds, rfl⟩ := h
  exact hadds

theorem Trails.log (h : Trails ms lines r q) (line : String) :
    Trails ms lines (r.log line) (q.log line) :=
  h.withLedger (h.adds.log line)

theorem abreast_conclude (ha : a.Trails Same ms b) (h : Trails ms lines r q)
    (error : Option RunError) : Abreast Same ms lines (a, r.conclude error) (b, q.conclude error) := by
  obtain ⟨hfree, ledger, hadds, rfl⟩ := h
  exact ⟨ha, ⟨hfree, ledger, hadds, rfl⟩, trivial⟩

/-- A question other than the check goes to a client that is the same in both, finds the same room
for its prompt and gets the same reply, later by the same time. -/
theorem abreast_ask (hs : s.Blind Same) (ha : a.Trails Same ms b) (h : Trails ms lines r q)
    (question : Question) (hquestion : question.task ≠ .directAnswerCheck) (body : String) :
    Abreast Same ms lines (ask s a r question body) (ask s b q question body) := by
  obtain ⟨hfree, ledger, hadds, rfl⟩ := h
  have hcancelled : q.cancelled = false := by rw [cancelled, hfree]; rfl
  have hcancelled' : ({ q with ledger := ledger, phase := q.phase.delay ms } : Run).cancelled = false :=
    hcancelled
  obtain ⟨hclient, hworld⟩ := hs.client question.task hquestion ha.world
  have hcomplete := @hs.complete question.task hquestion b.world
  unfold ask
  rw [hcancelled, hcancelled']
  simp only [Bool.false_eq_true, if_false]
  -- what the two clients are and say is known only through these three facts
  revert hclient hworld hcomplete
  generalize s.createClient question.task a.world = x
  generalize s.createClient question.task b.world = y
  obtain ⟨result, v⟩ := x
  obtain ⟨result', w⟩ := y
  rintro rfl hworld hcomplete
  cases result with
  | error e =>
    refine ⟨⟨ha.nowMs, hworld, ha.context⟩, ⟨hfree, ledger, hadds, ?_⟩, hquestion⟩
    simp only [Phase.delay, ha.nowMs]
  | ok client =>
    obtain ⟨hreply, hworld'⟩ := hcomplete rfl (b.context.compose body client.contextLength) hworld
    refine ⟨⟨ha.nowMs, ?_, ha.context⟩, ⟨hfree, ledger, hadds, ?_⟩, hquestion⟩
    · simp only [ha.context]
      exact hworld'
    · simp only [Phase.delay, ha.nowMs, ha.context, hreply]
      rw [Nat.add_right_comm]

/-- A plan is adopted over ledgers that differ in the added lines alone. -/
theorem abreast_adopt (ha : a.Trails Same ms b) (h : Trails ms lines r q) (plan : Plan)
    {l m : Ledger} (hadds : l.Adds lines m) :
    Abreast Same ms lines (adopt a r plan l) (adopt b q plan m) := by
  obtain ⟨hfree, -, -, rfl⟩ := h
  refine ⟨⟨ha.nowMs, ha.world, ha.context⟩, ⟨hfree, l, hadds, ?_⟩, trivial⟩
  simp only [adopt, execute, Phase.delay, Walk.delayAll_fresh]

theorem abreast_planned (ha : a.Trails Same ms b) (h : Trails ms lines r q) (reply : String) :
    Abreast Same ms lines (planned a r reply) (planned b q reply) := by
  unfold planned
  split
  · exact abreast_conclude ha h _
  · rename_i plan _
    exact abreast_adopt ha h plan ((h.adds.map
      (fun m => Ledger.carryOver plan.count m []) fun _ _ => rfl).log _)

/-- A verdict ends both runs, or sends both into the same retry: the budget and the failures it
looks at are not in the log. -/
theorem abreast_judged (hs : s.Blind Same) (ha : a.Trails Same ms b) (h : Trails ms lines r q)
    (verdict : Verdict) : Abreast Same ms lines (judged s a r verdict) (judged s b q verdict) := by
  have hlogged := h.log s!"Attempt {q.attempt} insufficient: {verdict.reason}"
  have hfailures := hlogged.adds.agrees.failures
  have hsufficient := h.log s!"Attempt {q.attempt} sufficient"
  obtain ⟨hfree, ledger, hadds, rfl⟩ := h
  unfold judged
  split
  · exact abreast_conclude ha hsufficient _
  · simp only
    -- the middle two cases pair a spent budget with one that is left
    split_ifs with hspent hleft hspent'
    · exact abreast_conclude ha hlogged _
    · exact absurd hspent hleft
    · exact absurd hspent' hspent
    · have hretried : Trails ms lines
          { (Run.log { q with ledger := ledger, phase := q.phase.delay ms }
              s!"Attempt {q.attempt} insufficient: {verdict.reason}") with retries := q.retries + 1 }
          { (q.log s!"Attempt {q.attempt} insufficient: {verdict.reason}") with
              retries := q.retries + 1 } :=
        ⟨hfree, _, hlogged.adds, rfl⟩
      rw [hfailures]
      exact abreast_ask hs ha hretried (.strategy verdict.reason) (by simp [Question.task]) _

theorem abreast_giveUp (ha : a.Trails Same ms b) (h : Trails ms lines r q) (reason why : String) :
    Abreast Same ms lines (giveUp a r reason why) (giveUp b q reason why) := by
  have hlogged := h.log s!"Retry stopped: {why}"
  obtain ⟨hfree, ledger, hadds, rfl⟩ := h
  exact abreast_conclude ha hlogged _

/-- The adjustment of both asks about the same nodes in the same order. -/
theorem abreast_adjust (hs : s.Blind Same) (ha : a.Trails Same ms b) (h : Trails ms lines r q)
    (reason : String) (named : List String) (next : AdjustStep) :
    Abreast Same ms lines (adjust s a r reason named next) (adjust s b q reason named next) := by
  cases next with
  | finished plan resets => exact abreast_adopt ha h plan (Adjusting.finish_adds h.adds named resets)
  | stopped why => exact abreast_giveUp ha h reason why
  | asks state node instruction =>
    have hasked := abreast_ask hs ha h (.arguments reason state node.id) (by simp [Question.task])
    obtain ⟨hfree, ledger, hadds, rfl⟩ := h
    exact hasked _

/-- A retry is judged against the plan, which the runs share, so it is taken or given up in both. -/
theorem abreast_retry (hs : s.Blind Same) (ha : a.Trails Same ms b) (h : Trails ms lines r q)
    (reason : String) (action : RetryAction) :
    Abreast Same ms lines (retry s a r reason action) (retry s b q reason action) := by
  have hplan : r.planOrEmpty = q.planOrEmpty := by
    obtain ⟨-, ledger, -, rfl⟩ := h
    rfl
  unfold retry
  rw [hplan]
  cases action with
  | stop why => exact abreast_giveUp ha h reason why
  | replan nodeId subtree =>
    have hreplan := replan_adds h.adds q.planOrEmpty nodeId subtree
    simp only
    revert hreplan
    generalize replan q.planOrEmpty r.ledger nodeId subtree = x
    generalize replan q.planOrEmpty q.ledger nodeId subtree = y
    rintro (⟨plan, hadds⟩ | why)
    · exact abreast_adopt ha h plan hadds
    · exact abreast_giveUp ha h reason why
  | adjust adjustments => exact abreast_adjust hs ha h reason _ _

/-- The answer to any question but the check. -/
theorem abreast_answered (hs : s.Blind Same) (ha : a.Trails Same ms b) (h : Trails ms lines r q)
    {question : Question} (hquestion : question.task ≠ .directAnswerCheck)
    (outcome : Except RunError String) :
    Abreast Same ms lines (answered s a r question outcome) (answered s b q question outcome) := by
  unfold answered
  -- one case for each question and reply, as `answered` tells them apart
  split
  · exact abreast_conclude ha h _
  · exact absurd rfl hquestion
  · exact absurd rfl hquestion
  · obtain ⟨hfree, ledger, hadds, rfl⟩ := h
    refine ⟨ha, ⟨hfree, _, ?_, rfl⟩, trivial⟩
    exact (hadds.map (·.recordFragment directAnswerKey _) fun _ _ => rfl).log _
  · exact abreast_conclude ha h _
  · exact abreast_planned ha h _
  · exact abreast_conclude ha h _
  · exact abreast_judged hs ha h _
  · exact abreast_judged hs ha h _
  · exact abreast_retry hs ha h _ _
  · exact abreast_giveUp ha h _ _
  · exact abreast_adjust hs ha h _ _ _
  · exact abreast_giveUp ha h _ _

/-- When the tree has run, both are judged on the same failures, or ask for a verdict on the same
text. -/
theorem abreast_executed (hs : s.Blind Same) (ha : a.Trails Same ms b) (h : Trails ms lines r q) :
    Abreast Same ms lines (executed s a r) (executed s b q) := by
  have hagrees := h.adds.agrees
  obtain ⟨hfree, ledger, hadds, rfl⟩ := h
  have hcancelled : q.cancelled = false := by rw [cancelled, hfree]; rfl
  have hcancelled' : ({ q with ledger := ledger, phase := q.phase.delay ms } : Run).cancelled = false :=
    hcancelled
  -- the result text and the failures are read off the sets and fragments, not off the log
  have htext : q.planOrEmpty.resultText ledger = q.planOrEmpty.resultText q.ledger :=
    hagrees.resultText q.planOrEmpty
  have hfailures : ledger.failures = q.ledger.failures := hagrees.failures
  have hresult : Trails ms lines
      { q with
        ledger := ledger, phase := q.phase.delay ms
        resultText := q.planOrEmpty.resultText q.ledger }
      { q with resultText := q.planOrEmpty.resultText q.ledger } := ⟨hfree, ledger, hadds, rfl⟩
  unfold executed
  rw [hcancelled, hcancelled']
  simp only [Bool.false_eq_true, if_false, hfailures]
  have hplan : ({ q with ledger := ledger, phase := q.phase.delay ms } : Run).planOrEmpty =
    q.planOrEmpty := rfl
  rw [hplan, htext]
  split
  · exact abreast_judged hs ha hresult _
  · exact abreast_ask hs ha hresult .evaluation (by simp [Question.task]) _

/-- What is published changes nothing else of what is around a run. -/
theorem exists_publishAll (around : Surroundings σ) (r : Run) (ledgers : List Ledger) :
    ∃ bus, publishAll around r ledgers = { around with bus := bus } := by
  induction ledgers generalizing around with
  | nil => exact ⟨around.bus, rfl⟩
  | cons l ls ih =>
    obtain ⟨bus, hbus⟩ := ih (publish around { r with ledger := l })
    exact ⟨bus, hbus⟩

/-- What a step of the tree leaves is filed in both. -/
theorem abreast_walked (ha : a.Trails Same ms b) (h : Trails ms lines r q) {walks : List Walk}
    {sh th : Shared σ} (hshared : sh.Trails Same ms lines th) :
    Abreast Same ms lines (walked a r (Walk.delayAll ms walks) sh) (walked b q walks th) := by
  obtain ⟨bus, hbus⟩ := exists_publishAll { a with world := sh.world } r sh.changes.reverse
  obtain ⟨bus', hbus'⟩ := exists_publishAll { b with world := th.world } q th.changes.reverse
  obtain ⟨hfree, ledger, hadds, rfl⟩ := h
  unfold walked
  rw [hbus, hbus', hshared.nextTicket]
  exact ⟨⟨ha.nowMs, hshared.world, ha.context⟩, ⟨hfree, sh.ledger, hshared.ledger, rfl⟩, trivial⟩

theorem shared_trails (ha : a.Trails Same ms b) (h : Trails ms lines r q) (nextTicket : Nat) :
    (r.shared a nextTicket).Trails Same ms lines (q.shared b nextTicket) := by
  obtain ⟨hfree, ledger, hadds, rfl⟩ := h
  exact ⟨hadds, ha.world, rfl, hfree, hfree, ha.nowMs⟩

theorem Trails.phase_eq (h : Trails ms lines r q) : r.phase = q.phase.delay ms := by
  obtain ⟨-, ledger, -, rfl⟩ := h
  rfl

theorem Trails.cancelled_eq (h : Trails ms lines r q) : r.cancelled = false ∧ q.cancelled = false := by
  obtain ⟨hfree, ledger, -, rfl⟩ := h
  have hcancelled : q.cancelled = false := by rw [cancelled, hfree]; rfl
  exact ⟨hcancelled, hcancelled⟩

/-- Each step of the second run is one of the first. -/
theorem Abreast.step? (hs : s.Blind Same) (h : Abreast Same ms lines (a, r) (b, q)) :
    Option.Rel (Abreast Same ms lines) (Run.step? s a r) (Run.step? s b q) := by
  obtain ⟨ha, hrun, hchecked⟩ := h
  have hphase := hrun.phase_eq
  obtain ⟨hcancelled, hcancelled'⟩ := hrun.cancelled_eq
  have hnow := ha.nowMs
  simp only at ha hrun hchecked hnow
  unfold Run.step?
  rw [hphase, hcancelled, hcancelled', hnow]
  -- by the phase: only an answer and the parts of the tree depend on the clock, and both are as
  -- much later as the clock is
  cases hq : q.phase with
  | starting request =>
    rw [hq] at hchecked
    exact hchecked.elim
  | asking question answer =>
    rw [hq] at hchecked
    simp only [Phase.delay, Bool.false_eq_true, if_false, Nat.add_le_add_iff_right]
    split
    · exact .some (abreast_answered hs ha hrun hchecked answer.outcome)
    · exact .none
  | executing walks nextTicket =>
    simp only [Phase.delay, Walk.all_isDone_delayAll]
    split
    · exact .some (abreast_executed hs ha hrun)
    · have hsteps := Walk.stepAll?_trails (d := s.dispatch) hs.registry
        (shared_trails ha hrun nextTicket) walks
      revert hsteps
      generalize Walk.stepAll? s.dispatch (r.shared a nextTicket) (Walk.delayAll ms walks) = x
      generalize Walk.stepAll? s.dispatch (q.shared b nextTicket) walks = y
      rintro (⟨hwalks, hshared⟩ | _)
      · refine .some ?_
        rw [hwalks]
        exact abreast_walked ha hrun hshared
      · exact .none
  | _ => exact .none

/-- What the first run waits for is what the second waits for, later. -/
theorem Abreast.due? (h : Abreast Same ms lines (a, r) (b, q)) :
    Run.due? s a r = (Run.due? s b q).map (· + ms) := by
  obtain ⟨ha, hrun, -⟩ := h
  have hphase := hrun.phase_eq
  simp only at ha hrun hphase
  unfold Run.due?
  rw [hphase]
  cases hq : q.phase with
  | starting request => rfl
  | asking question answer => rfl
  | executing walks nextTicket => exact Walk.nextEndAll?_delay (shared_trails ha hrun nextTicket) walks
  | _ => rfl

/-- With the clock moved to what is due, the two take the same step. -/
theorem Abreast.next? (hs : s.Blind Same) (h : Abreast Same ms lines (a, r) (b, q)) :
    Option.Rel (Abreast Same ms lines) (Run.next? s none a r) (Run.next? s none b q) := by
  have hstep := h.step? hs
  unfold Run.next?
  rw [h.due? (s := s)]
  revert hstep
  generalize Run.step? s a r = x
  generalize Run.step? s b q = y
  rintro (hx | _)
  · exact .some hx
  · cases hdue : Run.due? s b q with
    | none => exact .none
    | some t =>
      -- both wait, the first run for just as long after the second as before
      have hwaited : Abreast Same ms lines ({ a with nowMs := max a.nowMs (t + ms) }, r)
          ({ b with nowMs := max b.nowMs t }, q) := by
        have hnow : a.nowMs = b.nowMs + ms := h.around.nowMs
        refine ⟨⟨?_, h.around.world, h.around.context⟩, h.run, h.checked⟩
        simp only
        omega
      exact hwaited.step? hs

/-- Whether a query may be answered directly is asked at the beginning only. -/
theorem next?_answering (answers : Bool) (hchecked : q.phase.Checked) :
    Run.next? (s.answering answers) none b q = Run.next? s none b q := by
  have hstep : ∀ b : Surroundings σ, Run.step? (s.answering answers) b q = Run.step? s b q := by
    intro b
    unfold Run.step?
    -- the check is put by the first step alone, so past it no step asks what the settings answer
    -- there
    cases hq : q.phase with
    | starting request =>
      rw [hq] at hchecked
      exact hchecked.elim
    | asking question answer => rfl
    | executing walks nextTicket => rfl
    | _ => rfl
  unfold Run.next?
  rw [hstep]
  simp only [hstep]
  rfl

/-- The first run is past the check as the second is. -/
theorem Abreast.checked_left {x y : Surroundings σ × Run} (h : Abreast Same ms lines x y) :
    x.2.phase.Checked := by
  have hchecked := h.checked
  rw [h.run.phase_eq]
  cases hphase : y.2.phase with
  | starting request =>
    rw [hphase] at hchecked
    exact hchecked
  | asking question answer =>
    rw [hphase] at hchecked
    exact hchecked
  | executing walks nextTicket => trivial
  | _ => trivial

theorem drive_next {limit : Option Nat} {x : Surroundings σ × Run} (h : Run.next? s limit b q = some x) :
    Run.drive s limit b q = Run.drive s limit x.1 x.2 := drive_of_next?_eq_some h

/-- **Two runs in lockstep get to their ends in lockstep**, whichever of them might have answered
the query directly. -/
theorem Abreast.drive (hs : s.Blind Same) (answers answers' : Bool)
    (h : Abreast Same ms lines (a, r) (b, q)) :
    Abreast Same ms lines (Run.drive (s.answering answers) none a r)
      (Run.drive (s.answering answers') none b q) := by
  -- induction on the execution of the second run; the first takes a step whenever it does
  induction b, q using Run.drive.induct (s.answering answers') none generalizing a r with
  | case1 b q hnext =>
    have hpair := h.next? hs
    rw [← next?_answering answers h.checked_left, ← next?_answering answers' h.checked, hnext] at hpair
    cases hfirst : Run.next? (s.answering answers) none a r with
    | none =>
      rw [drive_of_next?_eq_none hfirst, drive_of_next?_eq_none hnext]
      exact h
    | some x =>
      rw [hfirst] at hpair
      exact absurd hpair (by rintro ⟨⟩)
  | case2 b q b' q' hnext ih =>
    have hpair := h.next? hs
    rw [← next?_answering answers h.checked_left, ← next?_answering answers' h.checked, hnext] at hpair
    cases hfirst : Run.next? (s.answering answers) none a r with
    | none =>
      rw [hfirst] at hpair
      exact absurd hpair (by rintro ⟨⟩)
    | some x =>
      rw [hfirst] at hpair
      cases hpair with
      | some habreast =>
        rw [drive_next hfirst, drive_next hnext]
        exact ih habreast

end Run

end Runs

end PlanRunner
