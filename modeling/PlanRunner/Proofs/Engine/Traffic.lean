import Mathlib.Logic.Function.Basic
import Mathlib.Logic.Relation
import PlanRunner.Engine.Slot

/-!
# PlanRunner — requests that share the place of the active run

A request to start a run looks whether the place of the active run is closed, takes the place and
tells those who wait that it is busy. A run that is over leaves the place and tells them that it is
idle. A shutdown closes the place and waits until it is told that it is idle. Each of these deeds is
one step here, and any number of requests take their steps in any order.

* `Traffic`, `Traffic.Step` — the place, how far everyone has come, and what can happen next;
* `Traffic.Coherent` — what holds in every order of steps: at most one request has the place;
* `Traffic.Settled` — nobody is between two steps where this does harm;
* `Traffic.active_of_whole` — a shutdown waits where no request was interrupted before it;
* `Traffic.shutdown_waits_iff` — it waits under every order of steps exactly if the traffic is
  settled when it begins, and whoever looks after that is refused in any case;
* `Traffic.not_shutdown_waits` — an order of steps in which it does not wait.
-/

namespace PlanRunner

-- ---------------------------------------------------------------------------
-- Requests that share a place.
-- ---------------------------------------------------------------------------

/-- How far a request to start a run has come. -/
inductive Traffic.Stage where
  | asked
  /-- The place was not closed when the request looked. -/
  | admitted
  | refused
  /-- The run has the place and has not told so. -/
  | placed
  | running
  /-- The run is over and has left the place, and has not told so. -/
  | left
  | ended
  deriving DecidableEq

/-- Whether a request that has come so far has the place. -/
def Traffic.Stage.holds : Traffic.Stage → Bool
  | .placed | .running => true
  | .asked | .admitted | .refused | .left | .ended => false

/-- Whether a request that has come so far has not been let in. -/
def Traffic.Stage.outside : Traffic.Stage → Bool
  | .asked | .refused => true
  | .admitted | .placed | .running | .left | .ended => false

/-- A call that is outside holds nothing. -/
theorem Traffic.Stage.holds_of_outside {stage : Traffic.Stage} (h : stage.outside = true) :
    stage.holds = false := by
  cases stage <;> first | rfl | cases h

/-- How far a shutdown has come. -/
inductive Traffic.Shutdown where
  | notBegun
  | waiting
  | returned
  deriving DecidableEq

/-- The place, all requests by their number, and the shutdown. -/
structure Traffic where
  slot : Slot Nat
  stage : Nat → Traffic.Stage
  shutdown : Traffic.Shutdown

namespace Slot

/-- The slot is taken only while it is free, and taking it changes nothing else. -/
theorem take?_eq_some_iff {α : Type} {slot slot' : Slot α} {run : α} :
    slot.take? run = some slot' ↔
      slot.active = none ∧ { slot with active := some run } = slot' := by
  unfold take?
  cases slot.active <;> simp

/-- The place after the end of a run, which leaves a place that another run has alone. -/
def leave (slot : Slot Nat) (i : Nat) : Slot Nat :=
  if slot.active = some i then slot.release else slot

end Slot

namespace Traffic

/-- Nothing has happened. -/
def start : Traffic := ⟨.free, fun _ => .asked, .notBegun⟩

/-- A request has come to a stage and leaves the place like this. -/
def enter (s : Traffic) (i : Nat) (stage : Stage) (slot : Slot Nat) : Traffic :=
  { s with slot := slot, stage := Function.update s.stage i stage }

/-- A shutdown has begun. -/
def shut (s : Traffic) : Traffic := { s with slot := s.slot.close, shutdown := .waiting }

/-- The wait of a shutdown has returned. -/
def woken (s : Traffic) : Traffic := { s with shutdown := .returned }

/-- One step of somebody. -/
inductive Step (s : Traffic) : Traffic → Prop where
  | pass {i : Nat} (hstage : s.stage i = .asked) (hopen : s.slot.closed = false) :
    Step s (s.enter i .admitted s.slot)
  | refuse {i : Nat} (hstage : s.stage i = .asked) (hclosed : s.slot.closed = true) :
    Step s (s.enter i .refused s.slot)
  | place {i : Nat} {slot : Slot Nat} (hstage : s.stage i = .admitted)
      (hslot : s.slot.take? i = some slot) : Step s (s.enter i .placed slot)
  | bounce {i : Nat} (hstage : s.stage i = .admitted) (hslot : s.slot.take? i = none) :
    Step s (s.enter i .refused s.slot)
  | announce {i : Nat} (hstage : s.stage i = .placed) : Step s (s.enter i .running s.slot.markBusy)
  | leave {i : Nat} (hstage : s.stage i = .running) : Step s (s.enter i .left (s.slot.leave i))
  | settle {i : Nat} (hstage : s.stage i = .left) : Step s (s.enter i .ended s.slot.markIdle)
  | shut (hshutdown : s.shutdown = .notBegun) : Step s s.shut
  | wake (hshutdown : s.shutdown = .waiting) (hidle : s.slot.idle = true) : Step s s.woken

/-- Any number of steps. -/
abbrev Steps : Traffic → Traffic → Prop := Relation.ReflTransGen Step

/-- What some order of steps leads to. -/
def Reachable (s : Traffic) : Prop := Steps start s

section
variable {s : Traffic} {i : Nat} {stage : Stage} {slot : Slot Nat}

@[simp] theorem enter_slot : (s.enter i stage slot).slot = slot := rfl

@[simp] theorem enter_stage_self : (s.enter i stage slot).stage i = stage :=
  Function.update_self ..

/-- The other calls stay where they are. -/
theorem enter_stage_of_ne {j : Nat} (h : j ≠ i) : (s.enter i stage slot).stage j = s.stage j :=
  Function.update_of_ne h ..

/-- Of two steps of one request only the later one can be seen. -/
theorem enter_enter (s : Traffic) (i : Nat) (stage : Stage) (slot : Slot Nat) (later : Stage)
    (slot' : Slot Nat) : (s.enter i stage slot).enter i later slot' = s.enter i later slot' := by
  simp only [enter, Function.update_idem]

/-- What is so of all requests after a step of one of them. -/
theorem forall_enter_stage {p : Nat → Stage → Prop} :
    (∀ j, p j ((s.enter i stage slot).stage j)) ↔ p i stage ∧ ∀ j, j ≠ i → p j (s.stage j) :=
  Function.forall_update_iff ..

end

variable {s s' : Traffic}

-- ---------------------------------------------------------------------------
-- What holds in every order of steps.
-- ---------------------------------------------------------------------------

/-- What holds in every order of steps. The place has one run, which is the one of the only request
that has come to have it. Where the place is said to be busy, somebody has still to say that it
is idle. -/
structure Coherent (s : Traffic) : Prop where
  holder : ∀ i, s.slot.active = some i ↔ (s.stage i).holds = true
  busy : s.slot.idle = false → ∃ i, s.stage i = .running ∨ s.stage i = .left
  closed : s.shutdown ≠ .notBegun → s.slot.closed = true

/-- At the start the slot is free and idle, and all calls are outside. -/
theorem Coherent.start : start.Coherent where
  holder _ := iff_of_false nofun nofun
  busy := nofun
  closed h := absurd rfl h

/-- The step of a request keeps the traffic coherent if it changes the run in the place only together
with its own stage, and if what it says of the place is so. -/
theorem Coherent.enter (h : s.Coherent) {i : Nat} {stage : Stage} {slot : Slot Nat}
    (hself : slot.active = some i ↔ stage.holds = true)
    (hothers : ∀ j, j ≠ i → (slot.active = some j ↔ s.slot.active = some j))
    (hbusy : slot.idle = false →
      (stage = .running ∨ stage = .left) ∨
        s.slot.idle = false ∧ s.stage i ≠ .running ∧ s.stage i ≠ .left)
    (hclosed : slot.closed = s.slot.closed) : (s.enter i stage slot).Coherent where
  holder := (forall_enter_stage (p := fun j st => slot.active = some j ↔ st.holds = true)).mpr
    ⟨hself, fun j hj => (hothers j hj).trans (h.holder j)⟩
  busy hidle := by
    rcases hbusy hidle with hstage | ⟨hidle', hrunning, hleft⟩
    · exact ⟨i, by rw [enter_stage_self]; exact hstage⟩
    · obtain ⟨j, hj⟩ := h.busy hidle'
      have hne : j ≠ i := by
        rintro rfl
        exact hj.elim hrunning hleft
      exact ⟨j, by rw [enter_stage_of_ne hne]; exact hj⟩
  closed hshutdown := hclosed.trans (h.closed hshutdown)

/-- A request that does not touch the place and has no place before and after. -/
theorem Coherent.enter_same (h : s.Coherent) {i : Nat} {stage : Stage}
    (hbefore : s.stage i = .asked ∨ s.stage i = .admitted) (hafter : stage.holds = false) :
    (s.enter i stage s.slot).Coherent := by
  have hheld : (s.stage i).holds = false := by
    rcases hbefore with hstage | hstage <;> rw [hstage] <;> rfl
  refine h.enter ((h.holder i).trans (by rw [hheld, hafter])) (fun _ _ => Iff.rfl)
    (fun hidle => .inr ⟨hidle, ?_⟩) rfl
  rcases hbefore with hstage | hstage <;> rw [hstage] <;> exact ⟨nofun, nofun⟩

/-- A running call has the slot. -/
theorem Coherent.active_of_running (h : s.Coherent) {i : Nat} (hstage : s.stage i = .running) :
    s.slot.active = some i :=
  (h.holder i).mpr (by rw [hstage]; rfl)

/-- A run that leaves the place is the one that has it. -/
theorem Coherent.leave_eq (h : s.Coherent) {i : Nat} (hstage : s.stage i = .running) :
    s.slot.leave i = s.slot.release := by
  rw [Slot.leave, if_pos (h.active_of_running hstage)]

/-- Taking the free slot makes the call its only holder. -/
theorem Coherent.place (h : s.Coherent) {i : Nat} {slot : Slot Nat}
    (hstage : s.stage i = .admitted) (hslot : s.slot.take? i = some slot) :
    (s.enter i .placed slot).Coherent := by
  obtain ⟨hfree, rfl⟩ := Slot.take?_eq_some_iff.mp hslot
  refine h.enter (iff_of_true rfl rfl) (fun j hj => ?_) (fun hidle => .inr ⟨hidle, ?_⟩) rfl
  · rw [hfree]
    exact iff_of_false (fun hi => hj (Option.some.inj hi).symm) nofun
  · rw [hstage]
    exact ⟨nofun, nofun⟩

/-- Leaving the slot makes it free again. -/
theorem Coherent.leave (h : s.Coherent) {i : Nat} (hstage : s.stage i = .running) :
    (s.enter i .left (s.slot.leave i)).Coherent := by
  rw [h.leave_eq hstage]
  refine h.enter (iff_of_false nofun nofun) (fun j hj => ?_) (fun _ => .inl (.inr rfl)) rfl
  rw [h.active_of_running hstage]
  exact iff_of_false nofun fun hi => hj (Option.some.inj hi).symm

/-- No step leaves two holders, or a slot that is busy without a call on its way. -/
theorem Coherent.step (h : s.Coherent) (hstep : Step s s') : s'.Coherent := by
  cases hstep with
  | pass hstage _ => exact h.enter_same (.inl hstage) rfl
  | refuse hstage _ => exact h.enter_same (.inl hstage) rfl
  | bounce hstage _ => exact h.enter_same (.inr hstage) rfl
  | place hstage hslot => exact h.place hstage hslot
  | announce hstage =>
    refine h.enter ((h.holder _).trans (by rw [hstage]; rfl)) (fun _ _ => Iff.rfl) ?_ rfl
    exact fun _ => .inl (.inl rfl)
  | leave hstage => exact h.leave hstage
  | settle hstage =>
    refine h.enter ((h.holder _).trans (by rw [hstage]; rfl)) (fun _ _ => Iff.rfl) nofun rfl
  | shut _ => exact ⟨h.holder, h.busy, fun _ => rfl⟩
  | wake hshutdown _ => exact ⟨h.holder, h.busy, fun _ => h.closed (by rw [hshutdown]; nofun)⟩

/-- All steps keep the traffic coherent. -/
theorem Coherent.steps (h : s.Coherent) (hsteps : Steps s s') : s'.Coherent := by
  induction hsteps with
  | refl => exact h
  | tail _ hstep ih => exact ih.step hstep

/-- Whatever the calls reach from the start is coherent. -/
theorem Reachable.coherent (h : Reachable s) : s.Coherent := Coherent.start.steps h

/-- A place that is said to be busy and is free has been left by somebody. -/
theorem Coherent.exists_left (h : s.Coherent) (hidle : s.slot.idle = false)
    (hrunning : ∀ i, s.stage i ≠ .running) : ∃ i, s.stage i = .left := by
  obtain ⟨i, hi⟩ := h.busy hidle
  exact ⟨i, hi.resolve_left (hrunning i)⟩

/-- A slot that was closed is not opened again. -/
theorem Step.closed (hstep : Step s s') (hclosed : s.slot.closed = true) :
    s'.slot.closed = true := by
  cases hstep with
  | place _ hslot =>
    obtain ⟨-, rfl⟩ := Slot.take?_eq_some_iff.mp hslot
    exact hclosed
  | leave _ =>
    rw [enter_slot, Slot.leave]
    split <;> exact hclosed
  | shut _ => rfl
  | _ => exact hclosed

-- ---------------------------------------------------------------------------
-- A shutdown that begins in settled traffic.
-- ---------------------------------------------------------------------------

/-- Nobody is between two steps where it does harm: no request that has found the place open has
still to take it or to tell that it took it, no run has begun while an earlier one had still to tell that it is
over, and nobody has been told that the place is idle while a run has it. -/
structure Settled (s : Traffic) : Prop where
  entered : ∀ i, s.stage i ≠ .admitted ∧ s.stage i ≠ .placed
  left : ∀ i, s.stage i = .left → s.slot.active = none
  idle : s.slot.idle = true → s.slot.active = none

/-- A call that is refused leaves nothing unsettled. -/
theorem Settled.refuse (h : s.Settled) (i : Nat) : (s.enter i .refused s.slot).Settled where
  entered := (forall_enter_stage (p := fun _ st => st ≠ .admitted ∧ st ≠ .placed)).mpr
    ⟨⟨nofun, nofun⟩, fun j _ => h.entered j⟩
  left := (forall_enter_stage (p := fun _ st => st = .left → s.slot.active = none)).mpr
    ⟨nofun, fun j _ => h.left j⟩
  idle := h.idle

/-- A free place that nobody is on the way to. -/
theorem Settled.enter_free (h : s.Settled) {i : Nat} {stage : Stage} {slot : Slot Nat}
    (hstage : stage ≠ .admitted ∧ stage ≠ .placed) (hfree : slot.active = none) :
    (s.enter i stage slot).Settled where
  entered := (forall_enter_stage (p := fun _ st => st ≠ .admitted ∧ st ≠ .placed)).mpr
    ⟨hstage, fun j _ => h.entered j⟩
  left _ _ := hfree
  idle _ := hfree

/-- What holds from the beginning of a shutdown on if the traffic was settled. -/
structure Closing (s : Traffic) : Prop where
  coherent : s.Coherent
  settled : s.Settled
  closed : s.slot.closed = true
  returned : s.shutdown = .returned → s.slot.active = none

/-- From a settled state on, a closed slot admits no call, so the shutdown waits for the one that is
running. -/
theorem Closing.step (h : s.Closing) (hstep : Step s s') : s'.Closing := by
  refine ⟨h.coherent.step hstep, ?_, hstep.closed h.closed, ?_⟩
  · cases hstep with
    -- admission asks for an open slot, and the later stages are ruled out as no call was in them
    | pass _ hopen =>
      rw [h.closed] at hopen
      cases hopen
    | refuse _ _ => exact h.settled.refuse _
    | place hstage _ => exact absurd hstage (h.settled.entered _).1
    | bounce hstage _ => exact absurd hstage (h.settled.entered _).1
    | announce hstage => exact absurd hstage (h.settled.entered _).2
    | leave hstage =>
      rw [h.coherent.leave_eq hstage]
      exact h.settled.enter_free ⟨nofun, nofun⟩ rfl
    | settle hstage => exact h.settled.enter_free ⟨nofun, nofun⟩ (h.settled.left _ hstage)
    | shut _ => exact ⟨h.settled.entered, h.settled.left, h.settled.idle⟩
    | wake _ _ => exact ⟨h.settled.entered, h.settled.left, h.settled.idle⟩
  · cases hstep with
    | place hstage _ => exact absurd hstage (h.settled.entered _).1
    | leave hstage =>
      rw [h.coherent.leave_eq hstage]
      exact fun _ => rfl
    | shut _ => nofun
    | wake _ hidle => exact fun _ => h.settled.idle hidle
    | _ => exact h.returned

/-- So it is for any number of steps. -/
theorem Closing.steps (h : s.Closing) (hsteps : Steps s s') : s'.Closing := by
  induction hsteps with
  | refl => exact h
  | tail _ hstep ih => exact ih.step hstep

/-- A shutdown that begins when all is settled closes what is settled. -/
theorem Settled.closing (h : s.Settled) (hs : s.Coherent) (hshutdown : s.shutdown = .notBegun) :
    s.shut.Closing where
  coherent := hs.step (.shut hshutdown)
  settled := ⟨h.entered, h.left, h.idle⟩
  closed := rfl
  returned := nofun

/-- The step of another request, of one that is further on. -/
theorem outside_enter {i j : Nat} {stage : Stage} {slot : Slot Nat}
    (h : (s.stage i).outside = true) (hj : (s.stage j).outside = false) :
    ((s.enter j stage slot).stage i).outside = true := by
  have hne : i ≠ j := ne_of_apply_ne (fun k => (s.stage k).outside) (by simp only [h, hj]; nofun)
  rw [enter_stage_of_ne hne, h]

/-- Whoever has not looked yet when the place is closed stays outside. -/
theorem Step.outside (hstep : Step s s') (hclosed : s.slot.closed = true) {i : Nat}
    (h : (s.stage i).outside = true) : (s'.stage i).outside = true := by
  cases hstep with
  | pass _ hopen =>
    rw [hclosed] at hopen
    cases hopen
  | @refuse j _ _ =>
    -- a call that is refused stays outside, whichever it is
    by_cases hij : i = j
    · rw [hij, enter_stage_self]
      rfl
    · rw [enter_stage_of_ne hij, h]
  | place hstage _ => exact outside_enter h (by rw [hstage]; rfl)
  | bounce hstage _ => exact outside_enter h (by rw [hstage]; rfl)
  | announce hstage => exact outside_enter h (by rw [hstage]; rfl)
  | leave hstage => exact outside_enter h (by rw [hstage]; rfl)
  | settle hstage => exact outside_enter h (by rw [hstage]; rfl)
  | shut _ => exact h
  | wake _ _ => exact h

/-- A call that comes after the shutdown never gets in. -/
theorem outside_of_steps (hsteps : Steps s s') (hclosed : s.slot.closed = true) {i : Nat}
    (h : (s.stage i).outside = true) : (s'.stage i).outside = true := by
  suffices h : s'.slot.closed = true ∧ (s'.stage i).outside = true from h.2
  induction hsteps with
  | refl => exact ⟨hclosed, h⟩
  | tail _ hstep ih => exact ⟨hstep.closed ih.1, hstep.outside ih.1 ih.2⟩

/-- Whoever is outside has no active run. -/
theorem Coherent.active_ne_of_outside (hs : s.Coherent) {i : Nat}
    (h : (s.stage i).outside = true) : s.slot.active ≠ some i := by
  intro hactive
  have hholds := (hs.holder i).mp hactive
  rw [Stage.holds_of_outside h] at hholds
  cases hholds

-- ---------------------------------------------------------------------------
-- A shutdown that begins in traffic that is not settled.
-- ---------------------------------------------------------------------------

/-- The wait of the shutdown can return while a run is active or before one becomes active. -/
def Slips (s : Traffic) : Prop :=
  ∃ s', Steps s s' ∧ s'.shutdown = .returned ∧ s'.slot.active ≠ none

/-- Where a shutdown slips by later, it slips by now. -/
theorem Slips.of_step (hstep : Step s s') (h : s'.Slips) : s.Slips := by
  obtain ⟨s'', hsteps, hreturned⟩ := h
  exact ⟨s'', .head hstep hsteps, hreturned⟩

/-- Who waits is told that the place is idle while a run has it. -/
theorem slips_of_idle (hshutdown : s.shutdown = .waiting) (hidle : s.slot.idle = true)
    (hactive : s.slot.active ≠ none) : s.Slips :=
  ⟨s.woken, .single (.wake hshutdown hidle), rfl, hactive⟩

/-- A run that has left says that the place is idle when the next run has it. -/
theorem slips_of_left (hshutdown : s.shutdown = .waiting) {i : Nat} (hstage : s.stage i = .left)
    (hactive : s.slot.active ≠ none) : s.Slips :=
  .of_step (.settle hstage) (slips_of_idle hshutdown rfl hactive)

/-- A run has the place and nobody who waits knows it. -/
theorem slips_of_placed (hs : s.Coherent) (hshutdown : s.shutdown = .waiting) {i : Nat}
    (hstage : s.stage i = .placed) : s.Slips := by
  have hactive : s.slot.active = some i := (hs.holder i).mpr (by rw [hstage]; rfl)
  have hsome : s.slot.active ≠ none := by rw [hactive]; nofun
  cases hidle : s.slot.idle with
  | true => exact slips_of_idle hshutdown hidle hsome
  | false =>
    -- only the run before can have said that the place is busy
    obtain ⟨j, hj⟩ := hs.exists_left hidle fun j hj => by
      obtain rfl : i = j := Option.some.inj (hactive.symm.trans (hs.active_of_running hj))
      rw [hstage] at hj
      cases hj
    exact slips_of_left hshutdown hj hsome

/-- A request that has found the place open takes it after the wait is over. -/
theorem slips_of_admitted_idle (hshutdown : s.shutdown = .waiting) (hidle : s.slot.idle = true)
    {i : Nat} (hstage : s.stage i = .admitted) (hfree : s.slot.active = none) : s.Slips := by
  have htake : s.slot.take? i = some { s.slot with active := some i } :=
    Slot.take?_eq_some_iff.mpr ⟨hfree, rfl⟩
  have hplace : Step s.woken (s.woken.enter i .placed { s.slot with active := some i }) :=
    .place hstage htake
  exact ⟨_, .head (.wake hshutdown hidle) (.single hplace), rfl, nofun⟩

/-- A call that was admitted before the closing can still take a free slot behind the shutdown's
back. -/
theorem slips_of_admitted_free (hs : s.Coherent) (hshutdown : s.shutdown = .waiting) {i : Nat}
    (hstage : s.stage i = .admitted) (hfree : s.slot.active = none) : s.Slips := by
  cases hidle : s.slot.idle with
  | true => exact slips_of_admitted_idle hshutdown hidle hstage hfree
  | false =>
    obtain ⟨j, hj⟩ := hs.exists_left hidle fun j hj => by
      have := hs.active_of_running hj
      rw [hfree] at this
      cases this
    have hne : i ≠ j := ne_of_apply_ne s.stage (by rw [hstage, hj]; nofun)
    refine .of_step (.settle hj) (slips_of_admitted_idle hshutdown rfl (i := i) ?_ hfree)
    rw [enter_stage_of_ne hne, hstage]

/-- Whoever has the slot can finish first, so an admitted call can always do so. -/
theorem slips_of_admitted (hs : s.Coherent) (hshutdown : s.shutdown = .waiting) {i : Nat}
    (hstage : s.stage i = .admitted) : s.Slips := by
  cases hactive : s.slot.active with
  | none => exact slips_of_admitted_free hs hshutdown hstage hactive
  | some k =>
    have hheld : (s.stage k).holds = true := (hs.holder k).mp hactive
    cases hk : s.stage k with
    | placed => exact slips_of_placed hs hshutdown hk
    | running =>
      -- the run ends, and then the place is free
      have hne : i ≠ k := ne_of_apply_ne s.stage (by rw [hstage, hk]; nofun)
      refine .of_step (.leave hk) (slips_of_admitted_free (hs.leave hk) hshutdown (i := i) ?_ ?_)
      · rw [enter_stage_of_ne hne, hstage]
      · rw [enter_slot, hs.leave_eq hk]
        rfl
    | _ =>
      rw [hk] at hheld
      cases hheld

/-- Where something is unsettled there is an interleaving in which the shutdown slips by. -/
theorem slips_of_not_settled (hs : s.Coherent) (hshutdown : s.shutdown = .waiting)
    (h : ¬ s.Settled) : s.Slips := by
  by_contra hslips
  refine h ⟨fun i => ⟨fun hi => ?_, fun hi => ?_⟩, fun i hi => ?_, fun hidle => ?_⟩
  · exact hslips (slips_of_admitted hs hshutdown hi)
  · exact hslips (slips_of_placed hs hshutdown hi)
  · by_contra hactive
    exact hslips (slips_of_left hshutdown hi hactive)
  · by_contra hactive
    exact hslips (slips_of_idle hshutdown hidle hactive)

-- ---------------------------------------------------------------------------
-- Requests that are not interrupted.
-- ---------------------------------------------------------------------------

/-- All steps of a request, or of the end of a run, one after the other. -/
inductive Whole (s : Traffic) : Traffic → Prop where
  | accept {i : Nat} {slot : Slot Nat} (hstage : s.stage i = .asked) (hopen : s.slot.closed = false)
      (hslot : s.slot.take? i = some slot) : Whole s (s.enter i .running slot.markBusy)
  | busy {i : Nat} (hstage : s.stage i = .asked) (hopen : s.slot.closed = false)
      (hslot : s.slot.take? i = none) : Whole s (s.enter i .refused s.slot)
  | closed {i : Nat} (hstage : s.stage i = .asked) (hclosed : s.slot.closed = true) :
    Whole s (s.enter i .refused s.slot)
  | finish {i : Nat} (hstage : s.stage i = .running) :
    Whole s (s.enter i .ended (s.slot.leave i).markIdle)

/-- An accept or a finish that is not interrupted is a sequence of the single steps. -/
theorem Whole.steps (h : Whole s s') : Steps s s' := by
  cases h with
  | @accept i slot hstage hopen hslot =>
    have hplace : Step (s.enter i .admitted s.slot) (s.enter i .placed slot) := by
      rw [← enter_enter s i .admitted s.slot .placed slot]
      exact .place (enter_stage_self) hslot
    have hannounce : Step (s.enter i .placed slot) (s.enter i .running slot.markBusy) := by
      rw [← enter_enter s i .placed slot .running slot.markBusy]
      exact .announce (enter_stage_self)
    exact .head (.pass hstage hopen) (.head hplace (.single hannounce))
  | @busy i hstage hopen hslot =>
    have hbounce : Step (s.enter i .admitted s.slot) (s.enter i .refused s.slot) := by
      rw [← enter_enter s i .admitted s.slot .refused s.slot]
      exact .bounce (enter_stage_self) hslot
    exact .head (.pass hstage hopen) (.single hbounce)
  | closed hstage hclosed => exact .single (.refuse hstage hclosed)
  | @finish i hstage =>
    have hsettle : Step (s.enter i .left (s.slot.leave i))
        (s.enter i .ended (s.slot.leave i).markIdle) := by
      rw [← enter_enter s i .left (s.slot.leave i) .ended _]
      exact .settle (enter_stage_self)
    exact .head (.leave hstage) (.single hsettle)

/-- Nobody is between two steps. -/
structure Unbroken (s : Traffic) : Prop where
  stages : ∀ i, s.stage i ≠ .admitted ∧ s.stage i ≠ .placed ∧ s.stage i ≠ .left
  idle : s.slot.idle = true → s.slot.active = none

/-- Between uninterrupted calls all is settled. -/
theorem Unbroken.settled (h : s.Unbroken) : s.Settled where
  entered i := ⟨(h.stages i).1, (h.stages i).2.1⟩
  left i hi := absurd hi (h.stages i).2.2
  idle := h.idle

/-- Who has the place has told so. -/
theorem Unbroken.running (h : s.Unbroken) {i : Nat} (hheld : (s.stage i).holds = true) :
    s.stage i = .running := by
  cases hstage : s.stage i with
  | running => rfl
  | placed => exact absurd hstage (h.stages i).2.1
  | _ =>
    rw [hstage] at hheld
    cases hheld

theorem Unbroken.start : start.Unbroken := ⟨fun _ => ⟨nofun, nofun, nofun⟩, fun _ => rfl⟩

theorem Unbroken.enter (h : s.Unbroken) {i : Nat} {stage : Stage} {slot : Slot Nat}
    (hstage : stage ≠ .admitted ∧ stage ≠ .placed ∧ stage ≠ .left)
    (hidle : slot.idle = true → slot.active = none) : (s.enter i stage slot).Unbroken where
  stages := (forall_enter_stage (p := fun _ st => st ≠ .admitted ∧ st ≠ .placed ∧ st ≠ .left)).mpr
    ⟨hstage, fun j _ => h.stages j⟩
  idle := hidle

/-- An uninterrupted call leaves no other call halfway. -/
theorem Unbroken.whole (h : s.Unbroken) (hs : s.Coherent) (hwhole : Whole s s') :
    s'.Unbroken := by
  cases hwhole with
  | accept _ _ _ => exact h.enter ⟨nofun, nofun, nofun⟩ nofun
  | busy _ _ _ => exact h.enter ⟨nofun, nofun, nofun⟩ h.idle
  | closed _ _ => exact h.enter ⟨nofun, nofun, nofun⟩ h.idle
  | finish hstage =>
    rw [hs.leave_eq hstage]
    exact h.enter ⟨nofun, nofun, nofun⟩ fun _ => rfl

/-- Accepting and finishing do not begin a shutdown. -/
theorem Whole.shutdown_eq (h : Whole s s') : s'.shutdown = s.shutdown := by
  cases h <;> rfl

/-- Uninterrupted calls from the start leave nothing halfway. -/
theorem unbroken_of_whole (h : Relation.ReflTransGen Whole start s) :
    Reachable s ∧ s.shutdown = .notBegun ∧ s.Unbroken := by
  induction h with
  | refl => exact ⟨.refl, rfl, .start⟩
  | tail _ hwhole ih =>
    obtain ⟨hreach, hshutdown, hunbroken⟩ := ih
    exact ⟨hreach.trans hwhole.steps, hwhole.shutdown_eq.trans hshutdown,
      hunbroken.whole hreach.coherent hwhole⟩

/-- Where no request and no end of a run is interrupted before a shutdown, it waits for the active
run. -/
theorem active_of_whole (h : Relation.ReflTransGen Whole start s) (hsteps : Steps s.shut s')
    (hreturned : s'.shutdown = .returned) : s'.slot.active = none := by
  obtain ⟨hreach, hshutdown, hunbroken⟩ := unbroken_of_whole h
  exact ((hunbroken.settled.closing hreach.coherent hshutdown).steps hsteps).returned hreturned

-- ---------------------------------------------------------------------------
-- The shutdown.
-- ---------------------------------------------------------------------------

/-- Whatever the order of steps was before and is after: the wait of a shutdown returns only when
no run is active and none will be if the shutdown begins in settled traffic, and in no other
traffic can this be relied on. A request that has not looked yet when the shutdown begins never
gets an active run. -/
theorem shutdown_waits_iff (h : Reachable s) (hshutdown : s.shutdown = .notBegun) :
    ((∀ s', Steps s.shut s' → s'.shutdown = .returned → s'.slot.active = none) ↔ s.Settled) ∧
    ∀ i, s.stage i = .asked → ∀ s', Steps s.shut s' → s'.slot.active ≠ some i := by
  have hs : s.shut.Coherent := h.coherent.step (.shut hshutdown)
  refine ⟨⟨fun hwaits => ?_, fun hsettled s' hsteps => ?_⟩, fun i hi s' hsteps => ?_⟩
  · -- from the unsettled state some interleaving lets the shutdown return beside an active run
    by_contra hsettled
    obtain ⟨s', hsteps, hreturned, hactive⟩ := slips_of_not_settled hs rfl fun hshut =>
      hsettled ⟨hshut.entered, hshut.left, hshut.idle⟩
    exact hactive (hwaits s' hsteps hreturned)
  · exact ((hsettled.closing h.coherent hshutdown).steps hsteps).returned
  · refine (hs.steps hsteps).active_ne_of_outside (outside_of_steps hsteps rfl ?_)
    change (s.stage i).outside = true
    rw [hi]
    rfl

/-- A shutdown that begins while one run is active and nobody is between two steps. -/
theorem shutdown_waits_iff_running :
    ∃ s, Reachable s ∧ s.shutdown = .notBegun ∧ s.slot.active = some 0 ∧
      ∀ s', Steps s.shut s' → s'.shutdown = .returned → s'.slot.active = none := by
  have haccept : Whole start (start.enter 0 .running (Slot.markBusy ⟨some 0, true, false⟩)) :=
    .accept rfl rfl rfl
  have hsettled := (Unbroken.start.whole .start haccept).settled
  exact ⟨_, haccept.steps, rfl, rfl, (shutdown_waits_iff haccept.steps rfl).1.mpr hsettled⟩

/-- The first run has left the place and has not told so, the second one begins, and then the
first one tells those who wait for the second that the place is idle. -/
theorem exists_returned_early :
    ∃ s, Reachable s ∧ s.shutdown = .returned ∧ s.slot.idle = true ∧ s.slot.active = some 1 ∧
      s.stage 1 = .running := by
  have hfirst : Whole start (start.enter 0 .running (Slot.markBusy ⟨some 0, true, false⟩)) :=
    .accept rfl rfl rfl
  have hleft := hfirst.steps.tail (.leave (i := 0) rfl)
  have hsecond := hleft.trans (Whole.accept (i := 1) rfl rfl rfl).steps
  have hsettled := hsecond.tail (.settle (i := 0) rfl)
  exact ⟨_, (hsettled.tail (.shut rfl)).tail (.wake rfl rfl), rfl, rfl, rfl, rfl⟩

/-- A shutdown does not wait for the active run under every order of steps. -/
theorem not_shutdown_waits :
    (¬ ∀ s, Reachable s → s.shutdown = .returned → s.slot.active = none) ∧
      ¬ ∀ s, Reachable s → s.slot.idle = true → s.slot.active = none := by
  obtain ⟨s, hreach, hreturned, hidle, hactive, -⟩ := exists_returned_early
  constructor
  · intro h
    rw [h s hreach hreturned] at hactive
    cases hactive
  · intro h
    rw [h s hreach hidle] at hactive
    cases hactive

end Traffic

end PlanRunner
