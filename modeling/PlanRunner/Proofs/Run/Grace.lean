import PlanRunner.Proofs.Run.Progress

/-!
# PlanRunner — how calls in flight end

A call in flight ends with its own outcome. After a cancellation it ends at the latest with
the grace period, and if its outcome is not there by then, it has been abandoned. However it
ends, its node keeps that outcome, and a cancelled walk adds no call to those in flight.

* `Ledger.Holds` — a ledger has the outcome of a node;
* `Walk.Does.ends` — whatever is done, a call stays in flight or its outcome is held;
* `Walk.stepAll?_onTime` — the step that is really taken ends a call only when it is due;
* `Walk.lt_endsAt_of_stepAll?_eq_none` — where no step is taken, no call is due;
* `Walk.exists_stepAll?_of_nextEndAll?` — when the next call is due, a step is taken.
-/

namespace PlanRunner

/-- A ledger has the outcome of the node with an id. -/
structure Ledger.Holds (l : Ledger) (id : String) (outcome : Except LayerError Value) : Prop where
  status : l.status id = (Fragment.ofOutcome outcome).status
  fragment : field? id l.fragments = some (.ofOutcome outcome)

namespace Walk

variable {σ : Type} {d : Dispatch σ} {gate : Gate} {sh sh' : Shared σ}
  {calls calls' : List (Node × Call)} {deed : Deed}

-- ---------------------------------------------------------------------------
-- Outcomes are kept
-- ---------------------------------------------------------------------------

theorem record_holds (l : Ledger) (node : Node) (outcome : Except LayerError Value) :
    (record l node outcome).Holds node.id outcome where
  status := by rw [status_record, Function.update_self]
  fragment := by rw [record_eq, Ledger.enter_fragments, field?_insertField_self]

/-- What the ledger holds of a node stays: deeds are about nodes without an outcome. -/
theorem Does.holds (h : Does d sh sh' calls calls' deed) (hruns : sh.ledger.Runs calls) {id : String}
    {outcome : Except LayerError Value} (hold : sh.ledger.Holds id outcome) :
    sh'.ledger.Holds id outcome := by
  have hchanges := h.changes hruns
  have hend := Deed.ended outcome
  -- an outcome is on record for the id, so no deed can start it again
  rw [← hold.status] at hend
  cases h with
  | rest hledger _ _ =>
    rw [hledger]
    exact hold
  | @start node _ _ _ _ hmark _ _ _ =>
    have hne : id ≠ node.id := by
      rintro rfl
      rw [hchanges.1] at hend
      exact hend.elim (by decide) (by decide)
    obtain ⟨-, -, -, hledger⟩ := Ledger.markRunning_eq_some_iff.mp hmark
    refine ⟨?_, ?_⟩
    · rw [hchanges.2, Function.update_of_ne hne]
      exact hold.status
    · rw [hledger]
      exact hold.fragment
  | @finish node _ result _ hledger _ _ =>
    have hne : id ≠ node.id := by
      rintro rfl
      rw [hchanges.1] at hend
      exact hend.elim (by decide) (by decide)
    refine ⟨?_, ?_⟩
    · rw [hchanges.2, Function.update_of_ne hne]
      exact hold.status
    · rw [hledger, record_eq, Ledger.enter_fragments, field?_insertField_ne _ _ hne]
      exact hold.fragment

/-- A call stays in flight, or the ledger holds its own outcome or that it was abandoned. -/
theorem Does.ends (h : Does d sh sh' calls calls' deed) {c : Node × Call} (hc : c ∈ calls) :
    c ∈ calls' ∨ ∃ outcome, (outcome = c.2.outcome ∨
      outcome = .error (.abandoned c.1.layer c.1.function d.graceMs)) ∧
        sh'.ledger.Holds c.1.id outcome := by
  cases h with
  | rest _ _ hcalls =>
    rw [hcalls]
    exact .inl hc
  | start _ _ _ _ hcalls => exact .inl (hcalls.mem_iff.mpr (List.mem_cons_of_mem _ hc))
  | @finish node call outcome hends hledger _ hcalls =>
    rcases List.mem_cons.mp (hcalls.mem_iff.mp hc) with rfl | hc
    · refine .inr ⟨outcome, ?_, hledger ▸ record_holds _ _ _⟩
      cases hends with
      | own => exact .inl rfl
      | abandoned _ => exact .inr rfl
    · exact .inl hc

/-- A cancelled walk adds no call to those in flight and leaves the world as it was. -/
theorem Does.of_cancelled (h : Does d sh sh' calls calls' deed) (hcancel : sh.cancelled = true) :
    calls' ⊆ calls ∧ sh'.world = sh.world := by
  cases h with
  | rest _ hworld hcalls =>
    rw [hcalls]
    exact ⟨List.Subset.refl _, hworld⟩
  | start hopen _ _ _ _ => exact absurd (hopen.symm.trans hcancel) (by decide)
  | finish _ _ hworld hcalls =>
    exact ⟨fun c hc => hcalls.mem_iff.mpr (List.mem_cons_of_mem _ hc), hworld⟩

-- ---------------------------------------------------------------------------
-- The steps that are really taken are on time
-- ---------------------------------------------------------------------------

/-- After a cancellation a call ends when it is due or when its grace is over, whichever is first.
-/
theorem endsAt_of_cancelled {t : Nat} (h : sh.cancelledAt = some t) (call : Call) :
    endsAt d sh call = min call.dueMs (t + d.graceMs) := by
  rw [endsAt, h]

/-- After a cancellation a call ends with its own outcome if it was due within the grace, and as abandoned
otherwise. -/
theorem ending_of_cancelled {t : Nat} (h : sh.cancelledAt = some t) (node : Node) (call : Call) :
    ending d sh node call = if call.dueMs ≤ t + d.graceMs then call.outcome
      else .error (.abandoned node.layer node.function d.graceMs) := by
  rw [ending, h]

/-- If a deed takes the outcome of a call, the call is due, and it ends as it has to. -/
def Deed.OnTime (d : Dispatch σ) (sh : Shared σ) (calls calls' : List (Node × Call)) : Deed → Prop
  | .rest => True
  | .start _ => True
  | .finish node outcome =>
    ∃ call, calls.Perm ((node, call) :: calls') ∧ outcome = ending d sh node call ∧
      endsAt d sh call ≤ sh.nowMs

/-- Calls that stand still do not make a deed late. -/
theorem Deed.OnTime.frame (h : deed.OnTime d sh calls calls') (before after : List (Node × Call)) :
    deed.OnTime d sh (before ++ (calls ++ after)) (before ++ (calls' ++ after)) := by
  cases deed with
  | rest => trivial
  | start node => trivial
  | finish node outcome =>
    obtain ⟨call, hcalls, hends⟩ := h
    refine ⟨call, ?_, hends⟩
    exact ((hcalls.append_right after).append_left before).trans List.perm_middle

/-- Where no call is in flight none can end. -/
theorem Does.onTime_of_nil (h : Does d sh sh' [] calls' deed) : deed.OnTime d sh [] calls' := by
  cases h with
  | rest _ _ _ => trivial
  | start _ _ _ _ _ => trivial
  | finish _ _ _ hcalls => exact absurd hcalls.length_eq (by simp)

mutual

/-- A poke that does something does it on time: a call that it ends has come to its end. -/
theorem poke?_onTime (d : Dispatch σ) (gate : Gate) (sh : Shared σ) :
    ∀ {w w' : Walk} {sh' : Shared σ}, w.poke? d gate sh = some (w', sh') →
      ∃ deed, Does d sh sh' w.inFlight w'.inFlight deed ∧ deed.OnTime d sh w.inFlight w'.inFlight
  | .fresh node parent prev, w', sh', h => by
    simp only [poke?, Option.some.injEq] at h
    obtain ⟨deed, hdoes, -⟩ := visit_does d gate.room sh node parent prev
    rw [h] at hdoes
    exact ⟨deed, hdoes, hdoes.onTime_of_nil⟩
  | .queued node parent prev ticket, w', sh', h => by
    simp only [poke?, Option.ite_none_right_eq_some, Option.some.injEq] at h
    obtain ⟨deed, hdoes, -⟩ := launch_does d sh node parent prev
    rw [h.2] at hdoes
    exact ⟨deed, hdoes, hdoes.onTime_of_nil⟩
  | .calling node call, w', sh', h => by
    simp only [poke?, Option.ite_none_right_eq_some, Option.some.injEq] at h
    have hdoes := settle_does (ends_ending d sh node call)
    rw [h.2] at hdoes
    refine ⟨_, hdoes, call, ?_, rfl, h.1⟩
    -- after the outcome has been taken nothing below the node is in flight yet
    have hidle : w'.inFlight = [] := by
      cases hdoes with
      | finish _ _ _ hcalls =>
        have hlength := hcalls.length_eq
        rw [List.length_cons, List.length_cons] at hlength
        exact List.eq_nil_of_length_eq_zero (Nat.succ.inj hlength).symm
    rw [hidle]
    exact .refl _
  | .group output members, w', sh', h => by
    simp only [poke?] at h
    split at h
    · rename_i members' sh'' hm
      simp only [Option.some.injEq, Prod.mk.injEq] at h
      obtain ⟨rfl, rfl⟩ := h
      rw [inFlight_closeGroup]
      exact pokeAll?_onTime d gate sh hm
    · simp at h
  | .chain output current later, w', sh', h => by
    simp only [poke?] at h
    split at h
    · rename_i current' sh'' hc
      simp only [Option.some.injEq, Prod.mk.injEq] at h
      obtain ⟨rfl, rfl⟩ := h
      rw [inFlight_closeChain]
      exact poke?_onTime d gate sh (w := current) hc
    · simp at h
  | .done _, w', sh', h => by simp [poke?] at h

/-- So does a poke of a list, at whichever walk moves. -/
theorem pokeAll?_onTime (d : Dispatch σ) (gate : Gate) (sh : Shared σ) :
    ∀ {ws ws' : List Walk} {sh' : Shared σ}, pokeAll? d gate sh ws = some (ws', sh') →
      ∃ deed, Does d sh sh' (inFlightAll ws) (inFlightAll ws') deed ∧
        deed.OnTime d sh (inFlightAll ws) (inFlightAll ws')
  | [], ws', sh', h => by simp [pokeAll?] at h
  | w :: ws, ws', sh', h => by
    simp only [pokeAll?] at h
    split at h
    · rename_i w' sh'' hw
      simp only [Option.some.injEq, Prod.mk.injEq] at h
      obtain ⟨rfl, rfl⟩ := h
      obtain ⟨deed, hdoes, htime⟩ := poke?_onTime d gate sh hw
      exact ⟨deed, hdoes.frame [] (inFlightAll ws), htime.frame [] (inFlightAll ws)⟩
    · split at h
      · rename_i ws'' sh'' hws
        simp only [Option.some.injEq, Prod.mk.injEq] at h
        obtain ⟨rfl, rfl⟩ := h
        obtain ⟨deed, hdoes, htime⟩ := pokeAll?_onTime d gate sh hws
        have hframe := hdoes.frame w.inFlight []
        have htimes := htime.frame w.inFlight []
        rw [List.append_nil, List.append_nil] at hframe htimes
        exact ⟨deed, hframe, htimes⟩
      · simp at h

end

/-- The step that is really taken ends a call only when it is due, and as it has to end. -/
theorem stepAll?_onTime {ws ws' : List Walk} (h : stepAll? d sh ws = some (ws', sh'))
    {c : Node × Call} (hc : c ∈ inFlightAll ws) :
    c ∈ inFlightAll ws' ∨
      endsAt d sh c.2 ≤ sh.nowMs ∧ sh'.ledger.Holds c.1.id (ending d sh c.1 c.2) := by
  -- both halves of a step are pokes, so what holds of every poke holds of it
  have hpoke : ∃ gate, pokeAll? d gate sh ws = some (ws', sh') := by
    simp only [stepAll?] at h
    split at h
    · rename_i hp
      rw [h] at hp
      exact ⟨_, hp⟩
    · exact ⟨_, h⟩
  obtain ⟨gate, hpoke⟩ := hpoke
  obtain ⟨deed, hdoes, htime⟩ := pokeAll?_onTime d gate sh hpoke
  cases hdoes with
  | rest _ _ hcalls =>
    rw [hcalls]
    exact .inl hc
  | start _ _ _ _ hcalls => exact .inl (hcalls.mem_iff.mpr (List.mem_cons_of_mem _ hc))
  | finish _ hledger _ _ =>
    obtain ⟨call, hcalls, rfl, hdue⟩ := htime
    rcases List.mem_cons.mp (hcalls.mem_iff.mp hc) with rfl | hc
    · exact .inr ⟨hdue, hledger ▸ record_holds _ _ _⟩
    · exact .inl hc

mutual

/-- Where nothing can be done, no call is due. -/
theorem lt_endsAt_of_poke?_eq_none : ∀ {w : Walk} {c : Node × Call}, w.poke? d gate sh = none →
    c ∈ w.inFlight → sh.nowMs < endsAt d sh c.2
  | .fresh _ _ _, _, _, hc => absurd hc List.not_mem_nil
  | .queued _ _ _ _, _, _, hc => absurd hc List.not_mem_nil
  | .calling _ _, c, h, hc => by
    rw [inFlight, List.mem_singleton] at hc
    subst hc
    rw [poke?, ite_eq_right_iff] at h
    -- a call whose end has come would have been settled
    by_contra hdue
    exact absurd (h (Nat.le_of_not_lt hdue)) (by simp)
  | .group _ _, _, h, hc => lt_endsAt_of_pokeAll?_eq_none (poke?_group_eq_none h) hc
  | .chain _ current _, _, h, hc =>
    lt_endsAt_of_poke?_eq_none (w := current) (poke?_chain_eq_none h) hc
  | .done _, _, _, hc => absurd hc List.not_mem_nil

/-- In a list that cannot move no call has come to its end. -/
theorem lt_endsAt_of_pokeAll?_eq_none : ∀ {ws : List Walk} {c : Node × Call},
    pokeAll? d gate sh ws = none → c ∈ inFlightAll ws → sh.nowMs < endsAt d sh c.2
  | [], _, _, hc => absurd hc List.not_mem_nil
  | w :: ws, c, h, hc => by
    obtain ⟨hw, hws⟩ := pokeAll?_cons_eq_none h
    rcases List.mem_append.mp hc with hc | hc
    · exact lt_endsAt_of_poke?_eq_none hw hc
    · exact lt_endsAt_of_pokeAll?_eq_none hws hc

end

/-- Where no step is taken, no call is due. -/
theorem lt_endsAt_of_stepAll?_eq_none {ws : List Walk} (h : stepAll? d sh ws = none)
    {c : Node × Call} (hc : c ∈ inFlightAll ws) : sh.nowMs < endsAt d sh c.2 :=
  lt_endsAt_of_pokeAll?_eq_none (pokeAll?_eq_none_of_stepAll? h) hc

-- ---------------------------------------------------------------------------
-- Waiting for the next call
-- ---------------------------------------------------------------------------

mutual

/-- The next end is that of a call in flight, if there is one. -/
theorem nextEnd?_spec (d : Dispatch σ) (sh : Shared σ) : ∀ (w : Walk),
    (w.nextEnd? d sh = none → w.inFlight = []) ∧
      ∀ t, w.nextEnd? d sh = some t → ∃ c ∈ w.inFlight, endsAt d sh c.2 = t
  | .fresh _ _ _ => ⟨fun _ => rfl, fun _ h => by simp [nextEnd?] at h⟩
  | .queued _ _ _ _ => ⟨fun _ => rfl, fun _ h => by simp [nextEnd?] at h⟩
  | .calling node call =>
    ⟨fun h => by simp [nextEnd?] at h,
      fun _ h => ⟨(node, call), List.mem_singleton_self _, Option.some.inj h⟩⟩
  | .group _ members => nextEndAll?_spec d sh members
  | .chain _ current _ => nextEnd?_spec d sh current
  | .done _ => ⟨fun _ => rfl, fun _ h => by simp [nextEnd?] at h⟩

/-- The next end of a list is the end of one of its calls, and there is none only when no call is in
flight. -/
theorem nextEndAll?_spec (d : Dispatch σ) (sh : Shared σ) : ∀ (ws : List Walk),
    (nextEndAll? d sh ws = none → inFlightAll ws = []) ∧
      ∀ t, nextEndAll? d sh ws = some t → ∃ c ∈ inFlightAll ws, endsAt d sh c.2 = t
  | [] => ⟨fun _ => rfl, fun _ h => by simp [nextEndAll?] at h⟩
  | w :: ws => by
    obtain ⟨hw, hwend⟩ := nextEnd?_spec d sh w
    obtain ⟨hws, hwsend⟩ := nextEndAll?_spec d sh ws
    simp only [nextEndAll?, inFlightAll, List.mem_append, List.append_eq_nil_iff]
    cases hfirst : w.nextEnd? d sh with
    | none =>
      refine ⟨fun h => ⟨hw hfirst, hws h⟩, fun t h => ?_⟩
      obtain ⟨c, hc, hend⟩ := hwsend t h
      exact ⟨c, .inr hc, hend⟩
    | some a =>
      obtain ⟨c, hc, hcend⟩ := hwend a hfirst
      cases hrest : nextEndAll? d sh ws with
      | none =>
        refine ⟨fun h => by simp at h, fun t h => ⟨c, .inl hc, hcend.trans (Option.some.inj h)⟩⟩
      | some b =>
        obtain ⟨c', hc', hcend'⟩ := hwsend b hrest
        refine ⟨fun h => by simp at h, fun t h => ?_⟩
        -- the earlier of the two ends is that of one of the two calls
        rcases Nat.le_total a b with hle | hle
        · exact ⟨c, .inl hc, by rw [hcend, ← Option.some.inj h, Nat.min_eq_left hle]⟩
        · exact ⟨c', .inr hc', by rw [hcend', ← Option.some.inj h, Nat.min_eq_right hle]⟩

end

/-- When the next call is due, a step is taken. -/
theorem stepAll?_ne_none_of_nextEndAll? {ws : List Walk} {t nowMs : Nat}
    (h : nextEndAll? d sh ws = some t) (hnow : t ≤ nowMs) :
    stepAll? d { sh with nowMs := nowMs } ws ≠ none := by
  intro hnone
  obtain ⟨c, hc, hend⟩ := (nextEndAll?_spec d sh ws).2 t h
  have hlt : nowMs < endsAt d sh c.2 := lt_endsAt_of_stepAll?_eq_none hnone hc
  omega

end Walk

end PlanRunner
