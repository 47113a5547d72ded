import PlanRunner.Engine.Basic
import PlanRunner.Proofs.Run.Interleaving

/-!
# PlanRunner — the steps of an engine in any order

What an engine does depends on how long answers and calls take and on when somebody
interferes. Here none of this is fixed: a question may be answered with anything at any
time, the steps of an execution come in any order that the permits allow, and a run is
cancelled, and new ones are submitted, between any two steps.

* `Run.Step` — one step of a run;
* `Engine.Step` — one step of an engine, its active run or somebody else's doing;
* `Engine.Lives` — steps of an engine while the active run goes on;
* `Engine.steps_carryOn`, `steps_advance`, `steps_execute`, `steps_submit`,
  `steps_shutdown` — the operations of an engine are made of such steps.
-/

namespace PlanRunner

variable {σ : Type}

-- ---------------------------------------------------------------------------
-- Runs
-- ---------------------------------------------------------------------------

/-- One step of a run, with what it does to its surroundings. A question may be answered
with any outcome, whatever the answer under way is. -/
inductive Run.Step (s : Services σ) (around : Surroundings σ) (r : Run) :
    Surroundings σ × Run → Prop where
  | begin {request : Facts} (hphase : r.phase = .starting request) :
    Step s around r (r.begin s around request)
  | answered {question : Question} {answer : Answer} (hphase : r.phase = .asking question answer)
      (outcome : Except RunError String) : Step s around r (r.answered s around question outcome)
  | walked {walks walks' : List Walk} {nextTicket : Nat} {sh : Shared σ}
      (hphase : r.phase = .executing walks nextTicket)
      (hturn : Traversal.Turn s.dispatch ⟨walks, r.shared around nextTicket⟩ ⟨walks', sh⟩) :
    Step s around r (r.walked around walks' sh)
  | executed {walks : List Walk} {nextTicket : Nat} (hphase : r.phase = .executing walks nextTicket)
      (hdone : walks.all Walk.isDone = true) : Step s around r (r.executed s around)

/-- The step that is possible right now is one of them. -/
theorem Run.step_of_step? {s : Services σ} {around : Surroundings σ} {r : Run}
    {x : Surroundings σ × Run} (h : r.step? s around = some x) : r.Step s around x := by
  unfold step? at h
  split at h
  · rename_i request hphase
    rw [← Option.some.inj h]
    exact .begin hphase
  · rename_i question answer hphase
    -- a cancelled run takes its cancellation for the answer
    split at h
    · rw [← Option.some.inj h]
      exact .answered hphase (.error .cancelled)
    · split at h
      · rw [← Option.some.inj h]
        exact .answered hphase answer.outcome
      · exact absurd h (by simp)
  · rename_i walks nextTicket hphase
    split at h
    · rename_i hdone
      rw [← Option.some.inj h]
      exact .executed hphase hdone
    · split at h
      · rename_i walks' sh hstep
        rw [← Option.some.inj h]
        exact .walked hphase (Traversal.turn_of_stepAll? (Nat.le_refl _) hstep)
      · exact absurd h (by simp)
  · exact absurd h (by simp)

-- ---------------------------------------------------------------------------
-- Engines
-- ---------------------------------------------------------------------------

namespace Engine

/-- The engine after a step of its active run. -/
def goOn (e : Engine σ) (x : Surroundings σ × Run) : Engine σ :=
  { e with around := x.1, slot := e.slot.update x.2 }

/-- One step of an engine. -/
inductive Step (s : Services σ) (e : Engine σ) : Engine σ → Prop where
  | accept {query : String} {request : Facts} {e' : Engine σ} (h : e.accept query request = .ok e') :
    Step s e e'
  | run {r : Run} {x : Surroundings σ × Run} (hactive : e.active = some r)
      (h : r.Step s e.around x) : Step s e (e.goOn x)
  | finish {r : Run} {error : Option RunError} (hactive : e.active = some r)
      (hphase : r.phase = .over error) : Step s e (e.finish r error)
  | cancel : Step s e e.cancel.2
  | close : Step s e { e with slot := e.slot.close }
  | wait (untilMs : Nat) : Step s e (e.wait untilMs)

/-- Any number of steps. -/
abbrev Steps (s : Services σ) : Engine σ → Engine σ → Prop :=
  Relation.ReflTransGen (Step s)

/-- Any number of steps after each of which a run is active: the active run goes on. -/
abbrev Lives (s : Services σ) : Engine σ → Engine σ → Prop :=
  Relation.ReflTransGen fun e e' => Step s e e' ∧ e'.active.isSome = true

variable {s : Services σ}

/-- What a run lives through are steps of the engine. -/
theorem Lives.steps {e e' : Engine σ} (h : Lives s e e') : Steps s e e' := by
  induction h with
  | refl => exact .refl
  | tail _ hstep ih => exact ih.tail hstep.1

@[simp] theorem active_start (settings : Settings) (server : Facts) (world : σ) (nowMs : Nat) :
    (Engine.start settings server world nowMs).active = none := rfl

@[simp] theorem active_finish (e : Engine σ) (r : Run) (error : Option RunError) :
    (e.finish r error).active = none := rfl

/-- A run is accepted only where none is active. -/
theorem accept_eq_ok {e e' : Engine σ} {query : String} {request : Facts}
    (h : e.accept query request = .ok e') :
    e.active = none ∧ e'.active = some (.start e.nextId query request e.around.nowMs) ∧
      e'.accepted = e.accepted + 1 ∧ e'.history = e.history := by
  unfold accept at h
  split at h
  · exact absurd h (by simp)
  · simp only at h
    split at h
    · exact absurd h (by simp)
    · rename_i slot hslot
      unfold Slot.take? at hslot
      -- the slot was taken, so it was free
      split at hslot
      · rename_i hfree
        rw [← Except.ok.inj h, ← Option.some.inj hslot]
        exact ⟨hfree, rfl, rfl, rfl⟩
      · exact absurd hslot (by simp)

theorem goOn_active (e : Engine σ) (x : Surroundings σ × Run) : (e.goOn x).active = some x.2 := rfl

/-- A run that has not moved leaves the engine as it is. -/
theorem goOn_self {e : Engine σ} {r : Run} (hactive : e.active = some r) :
    e.goOn (e.around, r) = e := by
  obtain ⟨around, history, ⟨active, idle, closed⟩, accepted⟩ := e
  obtain rfl : active = some r := hactive
  rfl

/-- Of several steps of a run only the last one can be seen in the place of the run. -/
theorem goOn_goOn (e : Engine σ) (x y : Surroundings σ × Run) : (e.goOn x).goOn y = e.goOn y := rfl

/-- The next step of the active run is one that the engine takes. -/
theorem lives_next? {e : Engine σ} {r : Run} {limit : Option Nat} {x : Surroundings σ × Run}
    (hactive : e.active = some r) (h : r.next? s limit e.around = some x) : Lives s e (e.goOn x) := by
  unfold Run.next? at h
  split at h
  · rename_i hstep
    rw [h] at hstep
    exact .single ⟨.run hactive (Run.step_of_step? hstep), rfl⟩
  · split at h
    · exact absurd h (by simp)
    · rename_i t hdue
      split at h
      · -- the run is waited for, and then it takes its step
        have hactive' : (e.wait t).active = some r := hactive
        have hwait : Lives s e (e.wait t) := .single ⟨.wait t, by rw [hactive']; rfl⟩
        exact hwait.tail ⟨.run hactive' (Run.step_of_step? h), rfl⟩
      · exact absurd h (by simp)

/-- Driving the active run takes steps that it lives through. -/
theorem lives_drive (s : Services σ) (limit : Option Nat) (around : Surroundings σ) (r : Run) :
    ∀ {e : Engine σ}, e.around = around → e.active = some r →
      Lives s e (e.goOn (r.drive s limit around)) := by
  -- induction on the drive; the engine is that before the step
  induction around, r using Run.drive.induct s limit with
  | case1 around r hnext =>
    rintro e rfl hactive
    rw [Run.drive_of_next?_eq_none hnext, goOn_self hactive]
  | case2 around r around' r' hnext ih =>
    rintro e rfl hactive
    have hfirst : Lives s e (e.goOn (around', r')) := lives_next? hactive hnext
    have hrest := ih (e := e.goOn (around', r')) rfl rfl
    rw [goOn_goOn] at hrest
    rw [Run.drive_of_next?_eq_some hnext]
    exact hfirst.trans hrest

/-- An active run that is carried on to its end is filed. -/
theorem carryOn_of_over {s : Services σ} {limit : Option Nat} {e : Engine σ} {r : Run}
    {error : Option RunError} (hactive : e.active = some r)
    (hover : (r.drive s limit e.around).2.phase = .over error) :
    e.carryOn s limit =
      (e.goOn (r.drive s limit e.around)).finish (r.drive s limit e.around).2 error := by
  simp only [carryOn, hactive, hover]
  rfl

/-- Carrying the active run on takes steps of the run, and files it at its end. -/
theorem steps_carryOn (s : Services σ) (limit : Option Nat) (e : Engine σ) :
    Steps s e (e.carryOn s limit) := by
  unfold carryOn
  split
  · exact .refl
  · rename_i r hactive
    have hdrive := (lives_drive s limit e.around r (e := e) rfl hactive).steps
    simp only
    split
    · rename_i error hphase
      exact hdrive.tail (.finish (goOn_active e _) hphase)
    · exact hdrive

/-- Letting time pass takes the steps that are due. -/
theorem steps_advance (s : Services σ) (ms : Nat) (e : Engine σ) : Steps s e (e.advance s ms) :=
  (steps_carryOn s _ e).tail (.wait _)

/-- A shutdown closes the slot and carries the active run to its end. -/
theorem steps_shutdown (s : Services σ) (e : Engine σ) : Steps s e (e.shutdown s) := by
  have hclose : Steps s e { e with slot := e.slot.close } := .single .close
  exact (hclose.tail .cancel).trans (steps_carryOn s none _)

/-- Submitting a run accepts it. -/
theorem steps_submit {e e' : Engine σ} {query id : String} {request : Facts}
    (h : e.submit query request = .ok (id, e')) : Steps s e e' := by
  unfold submit at h
  cases haccept : e.accept query request with
  | error error =>
    rw [haccept] at h
    exact absurd h (by simp [Except.map])
  | ok accepted =>
    rw [haccept] at h
    obtain ⟨rfl, rfl⟩ := Prod.mk.inj (Except.ok.inj h)
    exact .single (.accept haccept)

/-- Executing a run accepts it and carries it on, cancelled on the way or not. -/
theorem steps_execute {e e' : Engine σ} {query : String} {request : Facts}
    {cancelAfterMs : Option Nat} (h : e.execute s query request cancelAfterMs = .ok e') :
    Steps s e e' := by
  unfold execute at h
  cases haccept : e.accept query request with
  | error error =>
    rw [haccept] at h
    exact absurd h (by simp [Except.map])
  | ok accepted =>
    rw [haccept] at h
    have hend := Except.ok.inj h
    have hfirst : Steps s e accepted := .single (.accept haccept)
    refine hfirst.trans ?_
    rw [← hend]
    split
    · exact steps_carryOn s none accepted
    · rename_i ms
      have hcarry := steps_carryOn s (some (accepted.around.nowMs + ms)) accepted
      simp only
      split
      · exact hcarry
      · exact ((hcarry.tail (.wait _)).tail .cancel).trans (steps_carryOn s none _)

end Engine

end PlanRunner
