import PlanRunner.Proofs.Run.Event
import PlanRunner.Proofs.Run.Frame

/-!
# PlanRunner — the log of a run only grows

The log is part of the ledger, and the ledger of a run is replaced by another one when there is a
plan and with each change of it. So the log has to be carried along. Every step of a run leaves all
lines where they are, and what a step publishes shows the log as it is after the step.

* `Run.Continues` — what a step does to the log and to what is published;
* `Run.Event.continues` — every event does.
-/

namespace PlanRunner

/-- Starting a node writes nothing. -/
theorem Ledger.markRunning_logs {l l' : Ledger} {id : String} (h : l.markRunning id = some l') :
    l'.logs = l.logs := by
  obtain ⟨-, -, -, rfl⟩ := Ledger.markRunning_eq_some_iff.mp h
  rfl

/-- A failure writes a line, and nothing is taken out. -/
theorem Walk.record_logs (l : Ledger) (node : Node) (outcome : Except LayerError Value) :
    l.logs <+: (Walk.record l node outcome).logs := by
  unfold Walk.record
  cases outcome with
  | ok value => exact List.prefix_append _ _
  | error e => exact List.prefix_append _ _

namespace Run

variable {σ : Type} {s : Services σ} {around : Surroundings σ} {bus : Broadcast RunState}
  {r : Run} {x : Surroundings σ × Run}

/-- A run with an id and with what is published so far goes on: its log is a continuation of what
it was, and if something is published, it is a state with all of the log. -/
structure Continues (bus : Broadcast RunState) (id : String) (logs : List String)
    (x : Surroundings σ × Run) : Prop where
  id_eq : x.2.id = id
  logs : logs <+: x.2.ledger.logs
  bus : x.1.bus = bus ∨ ∃ state : RunState, state.id = id ∧ state.status = .running ∧
    state.logs = x.2.ledger.logs ∧ x.1.bus = bus.publish state

/-- A run ends with what it has logged, and with one more line at most. -/
theorem conclude_continues (around : Surroundings σ) {r q : Run} (error : Option RunError)
    (hid : q.id = r.id) (hlogs : r.ledger.logs <+: q.ledger.logs) :
    Continues around.bus r.id r.ledger.logs (around, q.conclude error) :=
  ⟨hid, hlogs, .inl rfl⟩

/-- A question is put by a run that has logged more, and nothing is published. -/
theorem ask_continues (s : Services σ) {around : Surroundings σ} {r q : Run} {question : Question}
    {body : String} (hbus : around.bus = bus) (hid : q.id = r.id)
    (hlogs : r.ledger.logs <+: q.ledger.logs) :
    Continues bus r.id r.ledger.logs (ask s around q question body) := by
  obtain ⟨answer, hask⟩ := exists_ask s around q question body
  refine ⟨?_, ?_, .inl ((ask_bus s around q question body).trans hbus)⟩
  · rw [hask]
    exact hid
  · rw [hask]
    exact hlogs

/-- A plan and a ledger that goes on with the log are taken over and published. -/
theorem adopt_continues (around : Surroundings σ) (r : Run) (plan : Plan) {ledger : Ledger}
    (h : r.ledger.logs <+: ledger.logs) :
    Continues around.bus r.id r.ledger.logs (adopt around r plan ledger) :=
  ⟨rfl, h, .inr ⟨_, rfl, rfl, rfl, rfl⟩⟩

/-- A step of an execution starts a node or ends one, and publishes that, or does neither. -/
theorem walked_continues {walks walks' : List Walk} {nextTicket : Nat} {sh : Shared σ}
    (h : Traversal.Turn s.dispatch ⟨walks, r.shared around nextTicket⟩ ⟨walks', sh⟩) :
    Continues around.bus r.id r.ledger.logs (walked around r walks' sh) := by
  have hpublished : sh.changes = [sh.ledger] → (walked around r walks' sh).1.bus =
      around.bus.publish ({ r with ledger := sh.ledger } : Run).current := by
    intro hchanges
    rw [walked, hchanges]
    rfl
  -- what a turn makes known is the ledger it leaves, if it changed it
  have hchanged : sh.changes = [sh.ledger] → r.ledger.logs <+: sh.ledger.logs →
      Continues around.bus r.id r.ledger.logs (walked around r walks' sh) := fun hchanges hlogs =>
    ⟨rfl, hlogs, .inr ⟨_, rfl, rfl, rfl, hpublished hchanges⟩⟩
  cases h.touches with
  | quiet hledger hchanges =>
    have hquiet : sh.changes = [] := hchanges
    have hsame : sh.ledger = r.ledger := hledger
    refine ⟨rfl, ?_, .inl ?_⟩
    · rw [walked, hsame]
    · rw [walked, hquiet]
      rfl
  | starts _ hmark hchanges =>
    refine hchanged hchanges ?_
    rw [Ledger.markRunning_logs hmark]
    exact List.prefix_rfl
  | ends _ outcome hrecord hchanges =>
    have hledger : sh.ledger = Walk.record r.ledger _ outcome := hrecord
    refine hchanged hchanges ?_
    rw [hledger]
    exact Walk.record_logs _ _ _

/-- Every event goes on with the log. -/
theorem Event.continues {m : Option Mark} (h : Event s around r m x) :
    Continues around.bus r.id r.ledger.logs x := by
  cases h with
  | asks context body hraises hlogs => exact ask_continues s rfl rfl hlogs
  | breaksOff error hend hdone => exact conclude_continues around _ rfl List.prefix_rfl
  | stops reason why hstage => exact conclude_continues around _ rfl (List.prefix_append _ _)
  | answersDirectly text hphase => exact conclude_continues around _ rfl (List.prefix_append _ _)
  | adopts hadopts => exact adopt_continues around r _ hadopts.logs
  | walks hphase hturn => exact walked_continues hturn
  | consults hexecuted hpolicy => exact ask_continues s rfl rfl List.prefix_rfl
  | accepts hjudges hsufficient =>
    obtain ⟨text, rfl⟩ := hjudges.exists_eq
    exact conclude_continues around _ rfl (List.prefix_append _ _)
  | exhausts hjudges hinsufficient hspent =>
    obtain ⟨text, rfl⟩ := hjudges.exists_eq
    exact conclude_continues around _ rfl (List.prefix_append _ _)
  | reconsiders hjudges hinsufficient hleft body =>
    obtain ⟨text, rfl⟩ := hjudges.exists_eq
    exact ask_continues s rfl rfl (List.prefix_append _ _)

/-- Every step goes on from the log it found. -/
theorem Step.continues (h : r.Step s around x) : Continues around.bus r.id r.ledger.logs x := by
  obtain ⟨m, hevent⟩ := h.event
  exact hevent.continues

end Run

end PlanRunner
