import PlanRunner.Proofs.Engine.Cancellation

/-!
# PlanRunner — the executions of an engine

What is proved about traversals is about a plan of distinct ids that is walked through from what
an earlier attempt has left. Here it is shown that the executions of an engine are of this kind,
as long as the plans that it comes to have no collisions: wherever the active run stands in an
execution, some deeds have led there from the roots of its plan and a ledger at rest, and time,
the world and a cancellation have had their way in between.

* `Run.Sound.atRest` — what a run holds when an execution begins;
* `Engine.exists_trace` — how an execution has come to where it stands.
-/

namespace PlanRunner

variable {σ : Type}

/-- A ledger without running nodes that a run goes on with is at rest. -/
theorem Run.Sound.atRest {r : Run} (hr : r.Sound) (hidle : r.ledger.running = []) :
    r.ledger.AtRest :=
  ⟨hidle, hr.ledger.orderly.valued⟩

namespace Engine

variable {s : Services σ} {e e' : Engine σ} {r : Run}

/-- An execution that is under way stands as a traversal from a ledger at rest does. -/
def Underway (s : Services σ) (around : Surroundings σ) (r : Run) : Prop :=
  ∀ walks ticket, r.phase = .executing walks ticket →
    ∃ sh deeds, sh.ledger.AtRest ∧
      Traversal.Trace s.dispatch (.start r.planOrEmpty sh) deeds ⟨walks, r.shared around ticket⟩

/-- Time, the world and a cancellation are no part of the way. -/
theorem Underway.meanwhile {around around' : Surroundings σ} {r' : Run} (h : Underway s around r)
    (hphase : r'.phase = r.phase) (hplan : r'.plan = r.plan) (hledger : r'.ledger = r.ledger)
    (hcancel : r.cancelled = true → r'.cancelled = true) : Underway s around' r' := by
  intro walks ticket hexecuting
  obtain ⟨sh, deeds, hrest, htrace⟩ := h walks ticket (hphase ▸ hexecuting)
  refine ⟨sh, deeds, hrest, ?_⟩
  rw [Run.planOrEmpty, hplan]
  exact htrace.meanwhile hledger hcancel

/-- A step begins an execution, goes on with one, or leaves none. -/
theorem Underway.step {around : Surroundings σ} {x : Surroundings σ × Run} (h : Underway s around r)
    (hstep : r.Step s around x) (hr : r.Manned) (hx : x.2.Sound) : Underway s x.1 x.2 := by
  intro walks ticket hexecuting
  rcases hstep.heir_or_walked with ⟨hheir, hidle⟩ | ⟨walks₀, walks₁, ticket₀, sh₁, hphase, hturn, rfl⟩
  · have hrunning : x.2.ledger.running = [] := hheir.running (hr.idle hidle)
    refine ⟨x.2.shared x.1 ticket, [], hx.atRest hrunning, ?_⟩
    rw [hheir.fresh hexecuting]
    exact .nil
  · obtain ⟨sh, deeds, hrest, htrace⟩ := h _ _ hphase
    obtain ⟨rfl, rfl⟩ := Phase.executing.inj hexecuting
    obtain ⟨deed, hdoes, -⟩ := hturn.does
    refine ⟨sh, deeds ++ [deed], hrest, (htrace.turn hturn hdoes).meanwhile rfl fun hcancel => ?_⟩
    exact hturn.cancelled.symm.trans hcancel

/-- Whatever the engine reaches, an active run is underway in an execution that began at rest. -/
theorem Reaches.underway {settings : Settings} {server : Facts} {world : σ} {nowMs : Nat}
    (h : Reaches s (.start settings server world nowMs) e) (hactive : e.active = some r) :
    Underway s e.around r := by
  -- by the last step of the engine: it starts the run, or takes it a step further
  induction h generalizing r with
  | refl => exact absurd hactive (by simp)
  | @tail e₁ e₂ hfirst hlast ih =>
    have hregistered : e₁.Registered :=
      (Registered.start settings server world nowMs).steps (Reaches.steps hfirst)
    have hsound : e₂.Sound := (Reaches.sound (hfirst.tail hlast)).1
    cases hlast.1 with
    | accept haccept =>
      obtain rfl := Option.some.inj ((accept_eq_ok haccept).2.1.symm.trans hactive)
      exact fun _ _ hphase => Phase.noConfusion hphase
    | @run q x hq hrun =>
      obtain rfl := Option.some.inj ((goOn_active e₁ x).symm.trans hactive)
      exact (ih hq).step hrun (hregistered.manned hq) (hsound.run hactive)
    | finish _ _ =>
      exact absurd hactive (by simp)
    | cancel =>
      cases hq : e₁.active with
      | none =>
        rw [Engine.cancel, hq] at hactive
        exact absurd (hq.symm.trans hactive) (by simp)
      | some q =>
        rw [Engine.cancel, hq] at hactive ⊢
        obtain rfl := Option.some.inj hactive
        exact (ih hq).meanwhile rfl rfl rfl fun _ => rfl
    | close => exact ih hactive
    | wait untilMs => exact (ih hactive).meanwhile rfl rfl rfl id

/-- However an engine comes from its start, without a collision on the way, to an execution of
the plan of its active run: the ids of the plan are distinct, and deeds of a traversal of it from
a ledger at rest have led there. -/
theorem exists_trace {settings : Settings} {server : Facts} {world : σ} {nowMs : Nat}
    {walks : List Walk} {ticket : Nat} (h : Reaches s (.start settings server world nowMs) e)
    (hactive : e.active = some r) (hphase : r.phase = .executing walks ticket) :
    r.planOrEmpty.ids.Nodup ∧ ∃ sh deeds, sh.ledger.AtRest ∧
      Traversal.Trace s.dispatch (.start r.planOrEmpty sh) deeds
        ⟨walks, r.shared e.around ticket⟩ := by
  obtain ⟨hsound, hfree⟩ := h.sound
  exact ⟨(hsound.run hactive).nodup (hfree r hactive), h.underway hactive walks ticket hphase⟩

end Engine

end PlanRunner
