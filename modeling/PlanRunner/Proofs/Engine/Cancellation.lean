import PlanRunner.Proofs.Engine.Coherence
import PlanRunner.Proofs.Run.Conduct

/-!
# PlanRunner — what a cancellation leads to

Whatever an engine has done before, from the moment in which its active run is cancelled the
run only winds down. No layer and no language model is called any more. What is in flight
ends with its own outcome or is abandoned with the grace period, so nothing is running at the
end. A run cancelled while its plan is executed is not judged any more: it ends as cancelled
and is filed once.

* `Engine.Registered` — what holds of the ids of runs and of what is filed;
* `Engine.Aftermath` — how a cancelled run stands some steps later;
* `Engine.Lives.aftermath` — whatever happens while it lives, a cancelled run stands so;
* `Engine.Filed` — how a run is filed at its end;
* `Engine.cancellation_safety` — all of it for every engine and every moment.
-/

namespace PlanRunner

variable {σ : Type}

namespace Engine

-- ---------------------------------------------------------------------------
-- Ids of runs
-- ---------------------------------------------------------------------------

/-- The id of the run that is the n-th to be accepted. -/
def runId (n : Nat) : String := s!"run-{n}"

/-- Runs are told apart by their numbers. -/
theorem runId_inj {m n : Nat} (h : runId m = runId n) : m = n := by
  have htext : toString m = toString n := (String.append_right_inj "run-").mp h
  rw [Nat.toString_eq_ofList_toDigits, Nat.toString_eq_ofList_toDigits] at htext
  -- a number is read back from its digits
  have hdigits := String.ofList_injective htext
  rw [← Nat.ofDigitChars_ten_toDigits (n := m), hdigits, Nat.ofDigitChars_ten_toDigits]

/-- What holds of the active run and of what is filed between two steps: runs have the ids of
the numbers under which they were accepted, what is filed was accepted before the active run
and is filed once, and nothing in it is running. -/
structure Registered (e : Engine σ) : Prop where
  manned : ∀ {r}, e.active = some r → r.Manned
  active : ∀ {r}, e.active = some r → r.id = runId e.accepted
  filed : ∀ entry ∈ e.history.entries, ∃ n ≤ e.accepted, entry.id = runId n ∧
    (e.active.isSome = true → n < e.accepted)
  distinct : (e.history.entries.map HistoryEntry.id).Nodup
  resting : ∀ entry ∈ e.history.entries, entry.result.ledger.running = []

variable {s : Services σ} {e e' : Engine σ} {r r' : Run}

/-- A new engine has accepted no run and filed none. -/
theorem Registered.start (settings : Settings) (server : Facts) (world : σ) (nowMs : Nat) :
    (Engine.start settings server world nowMs).Registered where
  manned := fun hr => absurd hr (by simp)
  active := fun hr => absurd hr (by simp)
  filed := fun _ hentry => absurd hentry List.not_mem_nil
  distinct := List.nodup_nil
  resting := fun _ hentry => absurd hentry List.not_mem_nil

/-- The active run has not been filed. -/
theorem Registered.unfiled (h : e.Registered) (hactive : e.active = some r) :
    ∀ entry ∈ e.history.entries, entry.id ≠ r.id := by
  intro entry hentry hid
  obtain ⟨n, -, hn, hlt⟩ := h.filed entry hentry
  rw [h.active hactive, hn] at hid
  have := hlt (by rw [hactive]; rfl)
  have := runId_inj hid
  omega

/-- What holds stays when the active run has moved on. -/
theorem Registered.of_active (h : e.Registered) (hactive : e.active = some r)
    (hactive' : e'.active = some r') (hmanned : r'.Manned) (hid : r'.id = r.id)
    (haccepted : e'.accepted = e.accepted) (hhistory : e'.history = e.history) :
    e'.Registered where
  manned := by
    intro q hq
    obtain rfl := Option.some.inj (hactive'.symm.trans hq)
    exact hmanned
  active := by
    intro q hq
    obtain rfl := Option.some.inj (hactive'.symm.trans hq)
    rw [hid, haccepted]
    exact h.active hactive
  filed := by
    rw [hhistory, haccepted]
    intro entry hentry
    obtain ⟨n, hle, hn, hlt⟩ := h.filed entry hentry
    exact ⟨n, hle, hn, fun _ => hlt (by rw [hactive]; rfl)⟩
  distinct := by
    rw [hhistory]
    exact h.distinct
  resting := by
    rw [hhistory]
    exact h.resting

/-- A run that ends gives up the slot and is filed once. -/
theorem Registered.finish (h : e.Registered) (hactive : e.active = some r) {error : Option RunError}
    (hphase : r.phase = .over error) : (e.finish r error).Registered where
  manned := fun hq => absurd hq (by simp)
  active := fun hq => absurd hq (by simp)
  filed := by
    intro entry hentry
    have hnone : (e.finish r error).active = none := rfl
    rw [hnone]
    rcases History.mem_push hentry with hentry | rfl
    · obtain ⟨n, hle, hn, -⟩ := h.filed entry hentry
      exact ⟨n, hle, hn, fun hsome => absurd hsome (by simp)⟩
    · -- the run that ends is the last that was accepted
      have hid : r.id = runId e.accepted := h.active hactive
      exact ⟨e.accepted, Nat.le_refl _, hid, fun hsome => absurd hsome (by simp)⟩
  distinct := by
    simp only [Engine.finish, History.push, List.map_append, List.map_cons, List.map_nil]
    refine List.nodup_append.mpr ⟨?_, List.nodup_singleton _, ?_⟩
    · exact h.distinct.sublist ((List.drop_sublist _ _).map _)
    · intro id hid other hother
      obtain ⟨entry, hentry, rfl⟩ := List.mem_map.mp hid
      rw [List.mem_singleton.mp hother]
      exact h.unfiled hactive entry (List.mem_of_mem_drop hentry)
  resting := by
    intro entry hentry
    rcases History.mem_push hentry with hentry | rfl
    · exact h.resting entry hentry
    · -- a run that is over has no calls
      have hidle : r.calls = [] := by rw [Run.calls, hphase]
      exact (h.manned hactive).idle hidle

/-- Whatever step the engine takes, its runs are accounted for. -/
theorem Registered.step (h : e.Registered) (hstep : Step s e e') : e'.Registered := by
  cases hstep with
  -- an accepted run takes the next number, so it differs from all that are filed
  | @accept query request _ haccept =>
    obtain ⟨-, hactive, haccepted, hhistory⟩ := accept_eq_ok haccept
    refine ⟨fun hr => ?_, fun hr => ?_, ?_, ?_, ?_⟩
    · obtain rfl := Option.some.inj (hactive.symm.trans hr)
      exact .start _ _ _ _
    · obtain rfl := Option.some.inj (hactive.symm.trans hr)
      rw [haccepted]
      rfl
    · rw [hhistory, haccepted]
      intro entry hentry
      obtain ⟨n, hle, hn, -⟩ := h.filed entry hentry
      exact ⟨n, Nat.le_succ_of_le hle, hn, fun _ => Nat.lt_succ_of_le hle⟩
    · rw [hhistory]
      exact h.distinct
    · rw [hhistory]
      exact h.resting
  | @run r x hactive hrun =>
    exact h.of_active hactive (goOn_active e x) (hrun.manned (h.manned hactive)) hrun.id_eq rfl rfl
  | finish hactive hphase => exact h.finish hactive hphase
  | cancel =>
    unfold Engine.cancel
    split
    · exact h
    · rename_i r hactive
      exact h.of_active hactive rfl ((h.manned hactive).cancel _) rfl rfl rfl
  | close => exact ⟨h.manned, h.active, h.filed, h.distinct, h.resting⟩
  | wait untilMs => exact ⟨h.manned, h.active, h.filed, h.distinct, h.resting⟩

theorem Registered.steps (h : e.Registered) (hsteps : Steps s e e') : e'.Registered := by
  induction hsteps with
  | refl => exact h
  | tail _ hstep ih => exact ih.step hstep

/-- No run is filed twice. -/
theorem Registered.filter_length_le (h : e.Registered) (id : String) :
    (e.history.entries.filter fun entry => entry.id == id).length ≤ 1 := by
  have hle := List.nodup_iff_count_le_one.mp h.distinct id
  rw [List.count, List.countP_map, List.countP_eq_length_filter] at hle
  simpa [Function.comp_def] using hle

-- ---------------------------------------------------------------------------
-- After a cancellation
-- ---------------------------------------------------------------------------

/-- How a run `r` that is cancelled when an engine stands at `e` stands as `r'` when the engine
stands at `e'`. Nothing has been called: the world is the same, no language model had any part
in it, and nothing is in flight that was not. What was in flight still is, or it has ended with
its own outcome or as abandoned; no more is running than is in flight, and nothing when all
walks are done or no plan is being executed. If its plan was being executed, this is the same
attempt without a result, or the run is over as cancelled. -/
structure Aftermath (s : Services σ) (e : Engine σ) (r : Run) (e' : Engine σ) (r' : Run) : Prop where
  id : r'.id = r.id
  cancelledAt : r'.cancelledAt = r.cancelledAt
  world : e'.around.world = e.around.world
  unasked : ∀ createClient, Lives (s.withClients createClient) e e'
  calls : r'.calls ⊆ r.calls
  ended : ∀ c ∈ r.calls, c ∈ r'.calls ∨ ∃ outcome, (outcome = c.2.outcome ∨
    outcome = .error (.abandoned c.1.layer c.1.function s.settings.cancelGraceMs)) ∧
      r'.ledger.Holds c.1.id outcome
  running : r'.ledger.running.Perm (r'.calls.map fun c => c.1.id)
  idle : (∀ walks ticket, r'.phase = .executing walks ticket → walks.all Walk.isDone = true) →
    r'.ledger.running = []
  attempt : r.IsExecuting → r'.attempt = r.attempt ∧ r'.resultText = r.resultText ∧
    (r'.IsExecuting ∨ r'.phase = .over (some .cancelled))
  unfiled : ∀ entry ∈ e'.history.entries, entry.id ≠ r.id

/-- Where all walks are done nothing is running. -/
theorem idle_of_manned (hr : r.Manned)
    (h : ∀ walks ticket, r.phase = .executing walks ticket → walks.all Walk.isDone = true) :
    r.ledger.running = [] := by
  refine hr.idle ?_
  by_cases hexecuting : r.IsExecuting
  · obtain ⟨walks, ticket, hphase⟩ := hexecuting
    rw [Run.calls_of_executing hphase, Walk.inFlightAll_done (h walks ticket hphase)]
  · exact Run.calls_of_not_executing hexecuting

/-- At the moment of the cancellation nothing has happened since. -/
theorem Registered.aftermath (h : e.Registered) (hactive : e.active = some r) :
    Aftermath s e r e r where
  id := rfl
  cancelledAt := rfl
  world := rfl
  unasked := fun _ => .refl
  calls := List.Subset.refl _
  ended := fun _ hc => .inl hc
  running := (h.manned hactive).runs.running
  idle := idle_of_manned (h.manned hactive)
  attempt := fun hexecuting => ⟨rfl, rfl, .inl hexecuting⟩
  unfiled := h.unfiled hactive

/-- A step of the run itself. -/
theorem Aftermath.run {x : Surroundings σ × Run} {e₁ : Engine σ} (h : Aftermath s e r e₁ r')
    (he : e₁.Registered) (hactive : e₁.active = some r') (hcancel : r.cancelled = true)
    (hstep : r'.Step s e₁.around x) : Aftermath s e r (e₁.goOn x) x.2 := by
  have hcancel' : r'.cancelled = true := by rwa [Run.cancelled, h.cancelledAt]
  have hmanned := he.manned hactive
  have hmanned' := hstep.manned hmanned
  -- a run that is over takes no step
  have hexecuting : r.IsExecuting → r'.IsExecuting := by
    intro hr
    refine (h.attempt hr).2.2.resolve_right fun hover => ?_
    cases hstep with
    | begin hphase => exact Phase.noConfusion (hover.symm.trans hphase)
    | answered hphase _ => exact Phase.noConfusion (hover.symm.trans hphase)
    | walked hphase _ => exact Phase.noConfusion (hover.symm.trans hphase)
    | executed hphase _ => exact Phase.noConfusion (hover.symm.trans hphase)
  refine ⟨hstep.id_eq.trans h.id, hstep.cancelledAt_eq.trans h.cancelledAt,
    (hstep.world_eq hcancel').trans h.world,
    fun _ => (h.unasked _).tail ⟨.run hactive (hstep.withClients (.inl hcancel')), rfl⟩,
    List.Subset.trans (hstep.calls_subset hcancel') h.calls, fun c hc => ?_, hmanned'.runs.running,
    idle_of_manned hmanned', fun hr => ?_, h.unfiled⟩
  · rcases h.ended c hc with hstays | ⟨outcome, hkind, hold⟩
    · exact hstep.ends hstays
    · have hr := hexecuting (Run.executing_of_mem_calls hc)
      exact .inr ⟨outcome, hkind, hstep.holds hmanned hcancel' hr hold⟩
  · obtain ⟨hattempt, htext, -⟩ := h.attempt hr
    obtain ⟨hattempt', htext', hphase'⟩ := hstep.of_cancelled_executing hcancel' (hexecuting hr)
    exact ⟨hattempt'.trans hattempt, htext'.trans htext, hphase'⟩

/-- What leaves the run, the world and the history as they are. -/
theorem Aftermath.of_same {e₁ e₂ : Engine σ} (h : Aftermath s e r e₁ r')
    (hworld : e₂.around.world = e₁.around.world) (hhistory : e₂.history = e₁.history)
    (hactive : e₂.active = some r') (hstep : ∀ createClient, Step (s.withClients createClient) e₁ e₂) :
    Aftermath s e r e₂ r' where
  id := h.id
  cancelledAt := h.cancelledAt
  world := hworld.trans h.world
  unasked := fun _ => (h.unasked _).tail ⟨hstep _, by rw [hactive]; rfl⟩
  calls := h.calls
  ended := h.ended
  running := h.running
  idle := h.idle
  attempt := h.attempt
  unfiled := by
    rw [hhistory]
    exact h.unfiled

/-- Whatever happens while a cancelled run lives, it stands as it has to. -/
theorem Lives.aftermath (he : e.Registered) (hactive : e.active = some r)
    (hcancel : r.cancelled = true) (h : Lives s e e') :
    ∃ r', e'.active = some r' ∧ Aftermath s e r e' r' := by
  induction h with
  | refl => exact ⟨r, hactive, he.aftermath hactive⟩
  | @tail e₁ e₂ hlives hstep ih =>
    obtain ⟨r', hactive', hafter⟩ := ih
    obtain ⟨hstep, hlive⟩ := hstep
    have he₁ := he.steps (Lives.steps hlives)
    cases hstep with
    | accept haccept =>
      -- the place is taken
      rw [(accept_eq_ok haccept).1] at hactive'
      exact absurd hactive' (by simp)
    | @run q x hq hrun =>
      obtain rfl := Option.some.inj (hactive'.symm.trans hq)
      exact ⟨x.2, rfl, hafter.run he₁ hactive' hcancel hrun⟩
    | finish _ _ => exact absurd hlive (by simp)
    | cancel =>
      -- only the first cancellation counts
      obtain ⟨t, ht⟩ := Option.isSome_iff_exists.mp hcancel
      have hsame : r'.cancel e₁.around.nowMs = r' := by
        rw [Run.cancel, hafter.cancelledAt, ht, Option.getD_some, ← ht, ← hafter.cancelledAt]
      have heq : e₁.cancel.2 = { e₁ with slot := e₁.slot.update r' } := by
        simp only [Engine.cancel, hactive', hsame]
      have hcancelled : e₁.cancel.2.active = some r' := by
        rw [heq]
        rfl
      exact ⟨r', hcancelled, hafter.of_same (by rw [heq]) (by rw [heq]) hcancelled fun _ => .cancel⟩
    | close => exact ⟨r', hactive', hafter.of_same rfl rfl hactive' fun _ => .close⟩
    | wait untilMs => exact ⟨r', hactive', hafter.of_same rfl rfl hactive' fun _ => .wait untilMs⟩

-- ---------------------------------------------------------------------------
-- The end of a cancelled run
-- ---------------------------------------------------------------------------

/-- How the calls of a run that was cancelled at `t` end in the steps that are really taken: on
arrival of the outcome, or at the end of the grace period, and no later. -/
structure WithinGrace (s : Services σ) (t : Nat) (r : Run) : Prop where
  ends : ∀ around x, r.step? s around = some x → ∀ c ∈ r.calls, c ∈ x.2.calls ∨
    (c.2.dueMs ≤ t + s.settings.cancelGraceMs ∧ c.2.dueMs ≤ around.nowMs ∧
      x.2.ledger.Holds c.1.id c.2.outcome) ∨
    (t + s.settings.cancelGraceMs < c.2.dueMs ∧ t + s.settings.cancelGraceMs ≤ around.nowMs ∧
      x.2.ledger.Holds c.1.id
        (.error (.abandoned c.1.layer c.1.function s.settings.cancelGraceMs)))
  waits : ∀ around : Surroundings σ, r.step? s around = none → ∀ c ∈ r.calls,
    around.nowMs < c.2.dueMs ∧ around.nowMs < t + s.settings.cancelGraceMs

/-- How a run `r` is filed at its end: in one entry, in which nothing is running, and never
again. If it was cancelled while its plan was executed, it has failed as cancelled. -/
structure Filed (s : Services σ) (r : Run) (e : Engine σ) : Prop where
  free : e.active = none
  entry : ∃ entry, (e.history.entries.filter fun entry => entry.id == r.id) = [entry] ∧
    entry.result.ledger.running = [] ∧
      (r.IsExecuting → entry.status = .failed ∧ entry.result.error = some "Run cancelled")
  once : ∀ e', Steps s e e' →
    (e'.history.entries.filter fun entry => entry.id == r.id).length ≤ 1

/-- A cancelled run that ends is filed once, as cancelled, and the slot is free. -/
theorem Aftermath.filed (h : Aftermath s e r e' r') (he : e'.Registered)
    (hactive : e'.active = some r') {error : Option RunError} (hphase : r'.phase = .over error) :
    Filed s r (e'.finish r' error) where
  free := rfl
  entry := by
    have hfinish := he.finish hactive hphase
    refine ⟨(r'.log s!"Run {(Run.endStatus error).name}").entry error e'.around.nowMs, ?_, ?_, ?_⟩
    · -- the entries that were kept are those of other runs
      have hothers : ((e'.history.entries.drop (e'.history.entries.length + 1 -
          e'.history.capacity)).filter fun entry => entry.id == r.id) = [] := by
        rw [List.filter_eq_nil_iff]
        intro entry hentry
        simpa using h.unfiled entry (List.mem_of_mem_drop hentry)
      have hself : ((r'.log s!"Run {(Run.endStatus error).name}").entry error e'.around.nowMs).id =
          r.id := h.id
      simp only [Engine.finish, History.push, List.filter_append, hothers, List.nil_append]
      rw [List.filter_singleton, hself, beq_self_eq_true]
      rfl
    · refine hfinish.resting _ ?_
      simp only [Engine.finish, History.push]
      exact List.mem_append_right _ (List.mem_singleton_self _)
    · intro hr
      have hover : r'.phase = .over (some .cancelled) := by
        refine (h.attempt hr).2.2.resolve_left ?_
        rintro ⟨walks, ticket, hexecuting⟩
        exact Phase.noConfusion (hphase.symm.trans hexecuting)
      obtain rfl := Phase.over.inj (hphase.symm.trans hover)
      exact ⟨rfl, rfl⟩
  once := fun _ hsteps => ((he.finish hactive hphase).steps hsteps).filter_length_le r.id

/-- Carrying an engine on without a limit takes its active run to the end and files it. -/
theorem carryOn_eq_finish (he : e.Registered) (hactive : e.active = some r) :
    ∃ e' r' error, Lives s e e' ∧ e'.active = some r' ∧ r'.phase = .over error ∧
      e.carryOn s none = e'.finish r' error := by
  obtain ⟨error, hover⟩ := Run.drive_over s e.around r (he.manned hactive)
  have hlives := lives_drive s none e.around r (e := e) rfl hactive
  exact ⟨_, _, error, hlives, goOn_active e _, hover, carryOn_of_over hactive hover⟩

/-- **Cancellation safety.** An engine has come anywhere from its start, and its active run has
been cancelled at `t`, by itself or with the engine. Whatever happens as long as the run lives,
it stands as described by `Aftermath`, its calls end within the grace period, and when it is
over it is filed once. Carried on without a limit, it comes to that end. -/
theorem cancellation_safety {settings : Settings} {server : Facts} {world : σ} {nowMs t : Nat}
    (h : Steps s (.start settings server world nowMs) e) (hactive : e.active = some r)
    (hcancel : r.cancelledAt = some t) :
    (∀ e', Lives s e e' → ∃ r', e'.active = some r' ∧ Aftermath s e r e' r' ∧
      WithinGrace s t r' ∧ ∀ error, r'.phase = .over error → Filed s r (e'.finish r' error)) ∧
    ∃ e' r' error, Lives s e e' ∧ e'.active = some r' ∧ r'.phase = .over error ∧
      e.carryOn s none = e'.finish r' error := by
  have he : e.Registered := (Registered.start settings server world nowMs).steps h
  have hcancelled : r.cancelled = true := by
    rw [Run.cancelled, hcancel]
    rfl
  refine ⟨fun e' hlives => ?_, carryOn_eq_finish he hactive⟩
  -- whatever was done since, the run is still there and stands as it has to
  obtain ⟨r', hactive', hafter⟩ := hlives.aftermath he hactive hcancelled
  have hcancel' : r'.cancelledAt = some t := hafter.cancelledAt.trans hcancel
  refine ⟨r', hactive', hafter, ⟨?_, ?_⟩, fun error hphase => ?_⟩
  · exact fun around x hstep c hc => Run.step?_onTime hstep hcancel' hc
  · exact fun around hstep c hc => Run.lt_of_step?_eq_none hstep hcancel' hc
  · exact hafter.filed (he.steps hlives.steps) hactive' hphase

/-- A run is cancelled while its second call is in flight, and is carried on. -/
theorem cancellation_safety_echo :
    ∃ e r, Steps echoServices (.start echoServices.settings .empty () 0) e ∧ e.active = some r ∧
      r.cancelledAt = some 0 ∧ r.calls.map (fun c => c.1.id) = ["n-27e79ac30ba46fa4"] ∧
      r.ledger.counts = (1, 0, 1) ∧
      ∃ entry, ((e.carryOn echoServices none).history.entries.filter
          fun entry => entry.id == r.id) = [entry] ∧
        entry.result.ledger.running = [] ∧ entry.status = .failed ∧
          entry.result.error = some "Run cancelled" := by
  have hrun : ((Engine.start echoServices.settings .empty () 0).cancelled? echoServices "q" 5 0).any
      (fun e => e.active.any fun r => decide (r.cancelledAt = some 0 ∧
        r.calls.map (fun c => c.1.id) = ["n-27e79ac30ba46fa4"] ∧
        r.ledger.counts = (1, 0, 1))) = true := by
    decide +kernel
  obtain ⟨e, hend, htest⟩ := (Option.any_eq_true _ _).mp hrun
  obtain ⟨r, hactive, htest⟩ := (Option.any_eq_true _ _).mp htest
  obtain ⟨hcancel, hcalls, hcounts⟩ := of_decide_eq_true htest
  have hsteps := (reaches_of_cancelled? hend).steps
  obtain ⟨hsafe, e', r', error, hlives, hactive', hover, heq⟩ :=
    cancellation_safety hsteps hactive hcancel
  obtain ⟨q, hq, -, -, hfiled⟩ := hsafe e' hlives
  obtain rfl := Option.some.inj (hactive'.symm.trans hq)
  -- with a call in flight the plan is being executed
  have hexecuting : r.IsExecuting := by
    by_contra hnot
    rw [Run.calls_of_not_executing hnot] at hcalls
    exact absurd hcalls (by simp)
  obtain ⟨entry, hentry, hrunning, hstatus⟩ := (hfiled error hover).entry
  refine ⟨e, r, hsteps, hactive, hcancel, hcalls, hcounts, entry, ?_, hrunning, hstatus hexecuting⟩
  rw [heq]
  exact hentry

end Engine

end PlanRunner
