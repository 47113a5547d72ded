import PlanRunner.Proofs.Engine.Chronicle
import PlanRunner.Proofs.Engine.Traffic

/-!
# PlanRunner — the shutdown of an engine

An engine carries out a request as a whole, and the end of a run too. So what it does to the place
of its active run is traffic in which nobody is interrupted, the place is said to be idle exactly
when it is free, and a shutdown leaves no active run behind.

* `Engine.exists_traffic` — the traffic at the place of an engine that was not shut down;
* `Engine.idle_iff_of_steps` — what is said of the place is so;
* `Engine.active_of_shutdown` — after a shutdown no run is active any more.
-/

namespace PlanRunner

namespace Engine

variable {σ : Type} {s : Services σ} {e e' : Engine σ}

/-- A request that is accepted takes the place of the engine and says that it is busy. -/
theorem accept_slot {query : String} {request : Facts} (h : e.accept query request = .ok e') :
    e.slot.closed = false ∧
      ∃ run slot, e.slot.take? run = some slot ∧ e'.slot = slot.markBusy := by
  unfold accept at h
  by_cases hclosed : e.slot.closed = true
  · rw [if_pos hclosed] at h
    cases h
  · rw [if_neg hclosed] at h
    refine ⟨Bool.eq_false_iff.mpr hclosed, .start e.nextId query request e.around.nowMs, ?_⟩
    cases hslot : e.slot.take? (.start e.nextId query request e.around.nowMs) with
    | none =>
      simp only [hslot] at h
      cases h
    | some slot =>
      simp only [hslot, Except.ok.injEq] at h
      exact ⟨slot, rfl, by rw [← h]⟩

/-- The traffic at the place of an engine, with the accepted requests under their numbers. -/
structure Follows (e : Engine σ) (t : Traffic) : Prop where
  active : e.active = none ↔ t.slot.active = none
  idle : t.slot.idle = e.slot.idle
  closed : t.slot.closed = e.slot.closed
  recent : ∀ i, t.slot.active = some i → i < e.accepted
  fresh : ∀ i, e.accepted ≤ i → t.stage i = .asked

/-- A step that changes no more than the state of the active run. -/
theorem Follows.same {t : Traffic} (h : e.Follows t) (hactive : e'.active = none ↔ e.active = none)
    (hidle : e'.slot.idle = e.slot.idle) (hclosed : e'.slot.closed = e.slot.closed)
    (haccepted : e'.accepted = e.accepted) : e'.Follows t where
  active := hactive.trans h.active
  idle := h.idle.trans hidle.symm
  closed := h.closed.trans hclosed.symm
  recent i hi := by rw [haccepted]; exact h.recent i hi
  fresh i hi := h.fresh i (by rwa [haccepted] at hi)

/-- A cancellation is no traffic. -/
theorem Follows.cancel {t : Traffic} (h : e.Follows t) : e.cancel.2.Follows t := by
  cases hactive : e.active with
  | none =>
    rw [Engine.cancel, hactive]
    exact h
  | some r =>
    rw [Engine.cancel, hactive]
    refine h.same (iff_of_false (Option.some_ne_none _) ?_) rfl rfl rfl
    rw [hactive]
    exact Option.some_ne_none r

/-- An accepted run takes the slot in one uninterrupted call. -/
theorem Follows.accept {t : Traffic} (h : e.Follows t) {query : String} {request : Facts}
    (haccept : e.accept query request = .ok e') :
    ∃ t', Traffic.Whole t t' ∧ e'.Follows t' := by
  obtain ⟨hopen, run, slot, hslot, hslot'⟩ := accept_slot haccept
  obtain ⟨hfree, rfl⟩ := Slot.take?_eq_some_iff.mp hslot
  have haccepted : e'.accepted = e.accepted + 1 := (accept_eq_ok haccept).2.2.1
  have htake : t.slot.take? e.accepted = some { t.slot with active := some e.accepted } :=
    Slot.take?_eq_some_iff.mpr ⟨h.active.mp hfree, rfl⟩
  refine ⟨_, .accept (h.fresh _ (Nat.le_refl _)) (h.closed.trans hopen) htake, ?_, ?_, ?_, ?_, ?_⟩
  · rw [Engine.active, hslot']
    exact iff_of_false (Option.some_ne_none _) (Option.some_ne_none _)
  · rw [hslot']
    rfl
  · rw [hslot']
    exact h.closed
  · rintro i ⟨⟩
    omega
  · intro i hi
    rw [Traffic.enter_stage_of_ne (by omega)]
    exact h.fresh i (by omega)

/-- A run that ends gives the slot up in one uninterrupted call. -/
theorem Follows.finish {t : Traffic} (h : e.Follows t) (ht : t.Coherent) (hunbroken : t.Unbroken)
    {r : Run} (hactive : e.active = some r) (error : Option RunError) :
    ∃ t', Traffic.Whole t t' ∧ (e.finish r error).Follows t' := by
  have hsome : t.slot.active ≠ none := by
    rw [Ne, ← h.active, hactive]
    exact Option.some_ne_none r
  obtain ⟨i, hi⟩ := Option.ne_none_iff_exists'.mp hsome
  have hstage : t.stage i = .running := hunbroken.running ((ht.holder i).mp hi)
  have hlt : i < e.accepted := h.recent i hi
  have hwhole := Traffic.Whole.finish hstage
  rw [ht.leave_eq hstage] at hwhole
  refine ⟨_, hwhole, iff_of_true rfl rfl, rfl, h.closed, nofun, fun j hj => ?_⟩
  rw [Traffic.enter_stage_of_ne (by have : e.accepted ≤ j := hj; omega)]
  exact h.fresh j hj

/-- Whatever an engine has done before its shutdown is what requests and ends of runs that are not
interrupted do to its place. -/
theorem exists_traffic {settings : Settings} {server : Facts} {world : σ} {nowMs : Nat}
    (h : Steps s (Engine.start settings server world nowMs) e) (hopen : e.slot.closed = false) :
    ∃ t, Relation.ReflTransGen Traffic.Whole .start t ∧ e.Follows t := by
  induction h with
  | refl => exact ⟨_, .refl, iff_of_true rfl rfl, rfl, rfl, nofun, fun _ _ => rfl⟩
  -- Induction on the steps: each is no traffic, or one uninterrupted call.
  | @tail e₁ e₂ _ hstep ih =>
    have hopen₁ : e₁.slot.closed = false := by
      rw [← Bool.not_eq_true]
      intro hclosed
      rw [hstep.closed hclosed] at hopen
      cases hopen
    obtain ⟨t, ht, hfollows⟩ := ih hopen₁
    obtain ⟨hreach, -, hunbroken⟩ := Traffic.unbroken_of_whole ht
    cases hstep with
    | accept haccept =>
      obtain ⟨t', hwhole, hfollows'⟩ := hfollows.accept haccept
      exact ⟨t', ht.tail hwhole, hfollows'⟩
    | run hactive _ =>
      refine ⟨t, ht, hfollows.same (iff_of_false (Option.some_ne_none _) ?_) rfl rfl rfl⟩
      rw [hactive]
      exact Option.some_ne_none _
    | finish hactive _ =>
      obtain ⟨t', hwhole, hfollows'⟩ := hfollows.finish hreach.coherent hunbroken hactive _
      exact ⟨t', ht.tail hwhole, hfollows'⟩
    | cancel => exact ⟨t, ht, hfollows.cancel⟩
    | close => cases hopen
    | wait _ => exact ⟨t, ht, hfollows.same Iff.rfl rfl rfl rfl⟩

/-- Where a run is active it may be in another state afterwards. -/
theorem idle_iff_update (h : e.slot.idle = true ↔ e.active = none) {r : Run}
    (hactive : e.active = some r) (r' : Run) :
    (e.slot.update r').idle = true ↔ (e.slot.update r').active = none := by
  rw [hactive] at h
  exact iff_of_false (fun hidle => Option.some_ne_none r (h.mp hidle)) (Option.some_ne_none r')

/-- Between the steps of the engine the slot is idle exactly when there is no run. -/
theorem Step.idle_iff (hstep : Step s e e') (h : e.slot.idle = true ↔ e.active = none) :
    e'.slot.idle = true ↔ e'.active = none := by
  cases hstep with
  | accept haccept =>
    obtain ⟨-, run, slot, hslot, hslot'⟩ := accept_slot haccept
    obtain ⟨-, rfl⟩ := Slot.take?_eq_some_iff.mp hslot
    rw [active, hslot']
    exact iff_of_false Bool.false_ne_true (Option.some_ne_none _)
  | run hactive _ => exact idle_iff_update h hactive _
  | finish _ _ => exact iff_of_true rfl rfl
  | cancel =>
    cases hactive : e.active with
    | none =>
      rw [Engine.cancel, hactive]
      exact h
    | some r =>
      rw [Engine.cancel, hactive]
      exact idle_iff_update h hactive _
  | close => exact h
  | wait _ => exact h

/-- An engine says that its place is idle exactly when no run is active. -/
theorem idle_iff_of_steps {settings : Settings} {server : Facts} {world : σ} {nowMs : Nat}
    (h : Steps s (Engine.start settings server world nowMs) e) :
    e.slot.idle = true ↔ e.active = none := by
  induction h with
  | refl => exact iff_of_true rfl rfl
  | tail _ hstep ih => exact hstep.idle_iff ih

/-- An engine without an active run that is closed stays without one. -/
theorem Step.active_of_closed (hstep : Step s e e') (hclosed : e.slot.closed = true)
    (hactive : e.active = none) : e'.active = none := by
  cases hstep with
  | accept haccept =>
    rw [(accept_slot haccept).1] at hclosed
    cases hclosed
  | run hrun _ =>
    rw [hactive] at hrun
    cases hrun
  | finish _ _ => rfl
  | cancel =>
    rw [Engine.cancel, hactive]
    exact hactive
  | close => exact hactive
  | wait _ => exact hactive

/-- After its shutdown an engine has no active run, and never has one again. -/
theorem active_of_shutdown (he : e.Registered) (h : Steps s (e.shutdown s) e') :
    e'.active = none := by
  suffices hboth : e'.slot.closed = true ∧ e'.active = none from hboth.2
  induction h with
  | refl =>
    have hclose : Steps s e { e with slot := e.slot.close } := .single .close
    exact ⟨shutdown_closed s e, carryOn_active (he.steps (hclose.tail .cancel))⟩
  | tail _ hstep ih => exact ⟨hstep.closed ih.1, hstep.active_of_closed ih.1 ih.2⟩

end Engine

end PlanRunner
