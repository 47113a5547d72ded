import Mathlib.Data.List.MinMax
import PlanRunner.Proofs.Run.StartOrder

/-!
# PlanRunner — few calls at a time, and no standstill

A call is counted from its start to its outcome, and a node that waits for its children or
for its turn counts for nothing. So however deep a plan is and however few calls may be in
flight, a traversal stands still only while a call is in flight: a part that has not been
looked at can be looked at, and of the waiting nodes the one that came first finds room.

* `Traversal.Trace.length_inFlight_le` — the calls in flight stay below the bound;
* `Walk.idle_tickets` — a part that has no step has a call in flight or waits;
* `Traversal.exists_takes_of_idle` — with no call in flight, what is left has a step;
* `Traversal.Steady.exists_start` — without a cancellation such steps lead to the start of
  an eligible node, if there is one;
* `Traversal.bounded_progress` — all of it for every traversal of a plan.
-/

namespace PlanRunner

namespace Walk

variable {σ : Type} {d : Dispatch σ} {gate : Gate} {sh : Shared σ}

-- ---------------------------------------------------------------------------
-- Parts without a step
-- ---------------------------------------------------------------------------

/-- A list cannot move when no walk in it can. -/
theorem pokeAll?_cons_eq_none {w : Walk} {ws : List Walk} (h : pokeAll? d gate sh (w :: ws) = none) :
    w.poke? d gate sh = none ∧ pokeAll? d gate sh ws = none := by
  rw [pokeAll?] at h
  split at h
  · exact absurd h (by simp)
  · rename_i hw
    split at h
    · exact absurd h (by simp)
    · rename_i hws
      exact ⟨hw, hws⟩

/-- A group moves when a member can. -/
theorem poke?_group_eq_none {output : Value} {members : List Walk}
    (h : (Walk.group output members).poke? d gate sh = none) : pokeAll? d gate sh members = none := by
  rw [poke?] at h
  split at h
  · exact absurd h (by simp)
  · assumption

/-- A chain moves when its current child can. -/
theorem poke?_chain_eq_none {output : Value} {current : Walk} {later : List Node}
    (h : (Walk.chain output current later).poke? d gate sh = none) :
    current.poke? d gate sh = none := by
  rw [poke?] at h
  split at h
  · exact absurd h (by simp)
  · assumption

/-- When the whole list cannot step, not even a queued node can be served. -/
theorem pokeAll?_eq_none_of_stepAll? {ws : List Walk} (h : stepAll? d sh ws = none) :
    pokeAll? d ⟨hasRoom d.permits ws, mayServe d.permits ws⟩ sh ws = none := by
  simp only [stepAll?] at h
  split at h
  · exact absurd h (by simp)
  · exact h

mutual

/-- A live walk without a step has a call in flight, or it waits. -/
theorem idle_tickets : ∀ {w : Walk}, w.Live → w.isDone = false → w.poke? d gate sh = none →
    w.inFlight = [] → w.tickets ≠ []
  | .fresh _ _ _, _, _, h, _ => absurd h (by simp [poke?])
  | .queued _ _ _ _, _, _, _, _ => List.cons_ne_nil _ _
  | .calling _ _, _, _, _, hidle => absurd hidle (List.cons_ne_nil _ _)
  | .group _ _, hlive, _, h, hidle =>
    idle_ticketsAll hlive.1 hlive.2 (poke?_group_eq_none h) hidle
  | .chain _ current _, hlive, _, h, hidle =>
    idle_tickets (w := current) hlive.1 hlive.2 (poke?_chain_eq_none h) hidle
  | .done _, _, hdone, _, _ => absurd hdone (by simp [isDone])

/-- A live list without a call that cannot move has a node in the queue. -/
theorem idle_ticketsAll : ∀ {ws : List Walk}, LiveAll ws → ws.all isDone = false →
    pokeAll? d gate sh ws = none → inFlightAll ws = [] → ticketsAll ws ≠ []
  | [], _, hdone, _, _ => absurd hdone (by simp)
  | w :: ws, hlive, hdone, h, hidle => by
    obtain ⟨hw, hws⟩ := pokeAll?_cons_eq_none h
    rw [inFlightAll, List.append_eq_nil_iff] at hidle
    rw [ticketsAll, Ne, List.append_eq_nil_iff, not_and_or]
    by_cases hfirst : w.isDone = false
    · exact .inl (idle_tickets hlive.1 hfirst hw hidle.1)
    · rw [List.all_cons, eq_true_of_ne_false hfirst, Bool.true_and] at hdone
      exact .inr (idle_ticketsAll hlive.2 hdone hws hidle.2)

end

mutual

/-- Where nothing can be done, no waiting node may be served. -/
theorem not_serves_of_mem_tickets : ∀ {w : Walk} {ticket : Nat}, w.poke? d gate sh = none →
    ticket ∈ w.tickets → gate.serves ticket = false
  | .fresh _ _ _, _, _, hmem => absurd hmem List.not_mem_nil
  | .queued _ _ _ _, ticket, h, hmem => by
    rw [tickets, List.mem_singleton] at hmem
    subst hmem
    rw [poke?, ite_eq_right_iff] at h
    -- a ticket that is served would let its node move
    by_contra hserves
    exact absurd (h (by simp [hserves])) (by simp)
  | .calling _ _, _, _, hmem => absurd hmem List.not_mem_nil
  | .group _ _, _, h, hmem => not_serves_of_mem_ticketsAll (poke?_group_eq_none h) hmem
  | .chain _ _ _, _, h, hmem => not_serves_of_mem_tickets (poke?_chain_eq_none h) hmem
  | .done _, _, _, hmem => absurd hmem List.not_mem_nil

/-- A list that cannot move has no ticket that is served. -/
theorem not_serves_of_mem_ticketsAll : ∀ {ws : List Walk} {ticket : Nat},
    pokeAll? d gate sh ws = none → ticket ∈ ticketsAll ws → gate.serves ticket = false
  | [], _, _, hmem => absurd hmem List.not_mem_nil
  | w :: ws, ticket, h, hmem => by
    obtain ⟨hw, hws⟩ := pokeAll?_cons_eq_none h
    rcases List.mem_append.mp hmem with hmem | hmem
    · exact not_serves_of_mem_tickets hw hmem
    · exact not_serves_of_mem_ticketsAll hws hmem

end

/-- With no call in flight the oldest ticket may be served. -/
theorem exists_mayServe {permits : Option Nat} (hpermits : permits ≠ some 0) {ws : List Walk}
    (hidle : inFlightAll ws = []) (hwaits : ticketsAll ws ≠ []) :
    ∃ ticket ∈ ticketsAll ws, mayServe permits ws ticket = true := by
  obtain ⟨some', hsome⟩ := List.exists_mem_of_ne_nil _ hwaits
  obtain ⟨oldest, holdest⟩ := Option.isSome_iff_exists.mp (List.isSome_min?_of_mem hsome)
  obtain ⟨hmem, hle⟩ := List.min?_eq_some_iff.mp holdest
  refine ⟨oldest, hmem, ?_⟩
  cases permits with
  | none => rfl
  | some k =>
    -- nobody is ahead of the oldest ticket
    have hnone : (ticketsAll ws).countP (· < oldest) = 0 := by
      rw [List.countP_eq_zero]
      intro ticket hticket hlt
      exact absurd (hle ticket hticket) (by simpa using hlt)
    have hpos : 0 < k := Nat.pos_of_ne_zero fun h0 => hpermits (h0 ▸ rfl)
    rw [mayServe, callCountAll_eq_length, hidle, hnone]
    simpa using hpos

end Walk

namespace Traversal

open Walk

variable {σ : Type} {d : Dispatch σ} {p : Plan} {sh : Shared σ} {deeds : List Deed}
  {t t' : Traversal σ}

-- ---------------------------------------------------------------------------
-- Calls in flight
-- ---------------------------------------------------------------------------

/-- A turn leaves at most as many calls in flight as are allowed. -/
theorem Turn.length_inFlight_le {k : Nat} (hpermits : d.permits = some k) (h : Turn d t t')
    (hle : t.inFlight.length ≤ k) : t'.inFlight.length ≤ k := by
  obtain ⟨deed, hdoes, hstart⟩ := h.does
  cases hdoes with
  | rest _ _ hcalls => rwa [hcalls]
  -- a call is started only while one of the permits is free
  | start _ _ _ _ hcalls =>
    have hlt := hstart (by simp [Deed.started?]) k hpermits
    rw [callCountAll_eq_length] at hlt
    rw [hcalls.length_eq]
    exact hlt
  | finish _ _ _ hcalls =>
    have hlength := hcalls.length_eq
    rw [List.length_cons] at hlength
    omega

/-- Along a trace there are never more calls in flight than permits. -/
theorem Trace.length_inFlight_le {k : Nat} (hpermits : d.permits = some k)
    (h : Trace d (.start p sh) deeds t) : t.inFlight.length ≤ k := by
  induction h with
  | nil =>
    rw [inFlight, Traversal.start, inFlightAll_fresh]
    exact Nat.zero_le k
  | turn _ hturn _ ih => exact hturn.length_inFlight_le hpermits ih
  | meanwhile _ _ _ ih => exact ih

-- ---------------------------------------------------------------------------
-- The steps that are really taken
-- ---------------------------------------------------------------------------

/-- The step that is really taken at the present time. -/
def Takes (d : Dispatch σ) (t t' : Traversal σ) : Prop :=
  stepAll? d t.shared t.walks = some (t'.walks, t'.shared)

theorem Takes.turn (h : Takes d t t') : Turn d t t' := turn_of_stepAll? (Nat.le_refl _) h

/-- With no call in flight, what is left has a step: what has not been looked at is looked
at, and otherwise the node that has waited longest is served. -/
theorem exists_takes_of_idle (hpermits : d.permits ≠ some 0) (hlive : LiveAll t.walks)
    (hidle : t.inFlight = []) (hleft : t.isOver = false) : ∃ t', Takes d t t' := by
  cases hstep : stepAll? d t.shared t.walks with
  | some x => exact ⟨⟨x.1, x.2⟩, hstep⟩
  | none =>
    have hpoke := pokeAll?_eq_none_of_stepAll? hstep
    have hwaits := idle_ticketsAll hlive hleft hpoke hidle
    obtain ⟨ticket, hmem, hserve⟩ := exists_mayServe hpermits hidle hwaits
    have hrefuse : mayServe d.permits t.walks ticket = false :=
      not_serves_of_mem_ticketsAll hpoke hmem
    exact absurd (hrefuse.symm.trans hserve) (by decide)

/-- A turn neither cancels nor revokes a cancellation. -/
theorem Turn.cancelled (h : Turn d t t') : t'.shared.cancelled = t.shared.cancelled := by
  obtain ⟨-, -, -, hmove⟩ := h
  exact hmove.cancelled

/-- Where an uncancelled traversal is over, no node may start. -/
theorem Steady.endedAll (h : Steady p t) (hopen : t.shared.cancelled = false)
    (hover : t.isOver = true) : Node.EndedAll t.shared.ledger.status p.roots :=
  (h.tracks.of_done hover).2 hopen

/-- With no call in flight, steps that only look at nodes lead to the start of one that may
start, if there is one. -/
theorem Steady.exists_start (hp : p.ids.Nodup) (hpermits : d.permits ≠ some 0) (h : Steady p t)
    (hopen : t.shared.cancelled = false) (hidle : t.inFlight = []) {s : Site}
    (hs : p.Eligible t.shared.ledger.status s) :
    ∃ t₁ t₂ next, Relation.ReflTransGen (fun a b => Takes d a b ∧ Does d a b .rest) t t₁ ∧
      Takes d t₁ t₂ ∧ Does d t₁ t₂ (.start next.node) ∧ p.Eligible t.shared.ledger.status next := by
  -- every step leaves less to do, so the weight carries the induction
  induction hweight : weightAll t.walks using Nat.strongRecOn generalizing t with
  | _ weight ih =>
    have hleft : t.isOver = false := by
      by_contra hover
      exact hs.not_ended (h.endedAll hopen (eq_true_of_ne_false hover))
    obtain ⟨t', htakes⟩ := exists_takes_of_idle hpermits h.live hidle hleft
    have hturn := htakes.turn
    obtain ⟨deed, hdoes, -⟩ := hturn.does
    cases deed with
    | start node =>
      obtain ⟨next, rfl, hnext⟩ := h.eligible hp hturn hdoes
      exact ⟨t, t', next, .refl, htakes, hdoes, hnext⟩
    | finish node outcome =>
      -- there is no call whose outcome could be taken
      cases hdoes with
      | finish _ _ _ hcalls =>
        rw [hidle] at hcalls
        exact absurd hcalls.length_eq (by simp)
    | rest =>
      have hrest := hdoes
      cases hdoes with
      | rest hledger _ hcalls =>
        rw [← hledger] at hs
        obtain ⟨t₁, t₂, next, hrests, hstart, hnode, hnext⟩ :=
          ih _ (hweight ▸ hturn.weight_lt) (h.turn hp hturn) (hturn.cancelled.trans hopen)
            (hcalls.trans hidle) hs rfl
        rw [hledger] at hnext
        exact ⟨t₁, t₂, next, .head ⟨htakes, hrest⟩ hrests, hstart, hnode, hnext⟩

/-- **Bounded progress.** A plan of distinct ids is walked through, from whatever an earlier
attempt has left, with at most `k` calls at a time, and `k` is not zero. Then at every moment
at most `k` nodes are running. As long as something is left to do, a call is in flight or a
step is taken. As long as the traversal is not cancelled and some node may start, a call is in
flight or such a node is about to be started by the steps that are taken. So where no call is
in flight and no step is taken, every node below completed ancestors has ended. -/
theorem bounded_progress {k : Nat} (hk : 0 < k) (hpermits : d.permits = some k) (hp : p.ids.Nodup)
    (hl : sh.ledger.AtRest) (h : Trace d (.start p sh) deeds t) :
    t.shared.ledger.running.length ≤ k ∧
    (t.isOver = false → t.inFlight ≠ [] ∨ ∃ t', Takes d t t') ∧
    (t.shared.cancelled = false → ∀ s, p.Eligible t.shared.ledger.status s →
      t.inFlight ≠ [] ∨ ∃ t₁ t₂ next,
        Relation.ReflTransGen (fun a b => Takes d a b ∧ Does d a b .rest) t t₁ ∧
          Takes d t₁ t₂ ∧ Does d t₁ t₂ (.start next.node) ∧
            p.Eligible t.shared.ledger.status next) ∧
    (t.shared.cancelled = false → t.inFlight = [] → (∀ t', ¬ Takes d t t') →
      ∀ s ∈ p.sites, (∀ a ∈ p.sites, s.node.id ∈ Node.idsAll a.node.children →
          t.shared.ledger.status a.node.id = .completed) →
        t.shared.ledger.status s.node.id = .completed ∨
          t.shared.ledger.status s.node.id = .failed) := by
  have hsteady := h.steady hp hl
  have hne : d.permits ≠ some 0 := by
    rw [hpermits]
    simp only [ne_eq, Option.some.injEq]
    omega
  refine ⟨?_, fun hleft => ?_, fun hopen s hs => ?_, fun hopen hidle hstuck s hs habove => ?_⟩
  · rw [hsteady.runs.running.length_eq, List.length_map]
    exact h.length_inFlight_le hpermits
  · exact Decidable.or_iff_not_imp_left.mpr fun hidle =>
      exists_takes_of_idle hne hsteady.live (not_not.mp hidle) hleft
  · exact Decidable.or_iff_not_imp_left.mpr fun hidle =>
      hsteady.exists_start hp hne hopen (not_not.mp hidle) hs
  · -- nothing is in flight and nothing can move, so the walks are all done
    have hover : t.isOver = true := by
      by_contra hleft
      obtain ⟨t', htakes⟩ :=
        exists_takes_of_idle hne hsteady.live hidle (Bool.eq_false_iff.mpr hleft)
      exact hstuck t' htakes
    exact (hsteady.endedAll hopen hover).terminal hs habove

-- ---------------------------------------------------------------------------
-- One call at a time
-- ---------------------------------------------------------------------------

theorem echoShared_atRest : echoShared.ledger.AtRest where
  running := rfl
  valued := fun _ hid => absurd (Ledger.status_eq_completed_iff.mp hid) List.not_mem_nil

/-- After a failure below the first root no call is in flight, and the second root may start;
so some node is started next. -/
theorem bounded_progress_echo :
    (echoDispatch.permits = some 1 ∧ echoPlan.ids.Nodup ∧ echoShared.ledger.AtRest) ∧
      ∃ deeds t, Trace echoDispatch (.start echoPlan echoShared) deeds t ∧
        t.shared.ledger.status "b" = .failed ∧ t.shared.ledger.running.length ≤ 1 ∧
        ∃ t₁ t₂ next, Takes echoDispatch t₁ t₂ ∧ Does echoDispatch t₁ t₂ (.start next.node) ∧
          echoPlan.Eligible t.shared.ledger.status next := by
  have hp : echoPlan.ids.Nodup := by decide
  have hrun : (steps? echoDispatch 4 (.start echoPlan echoShared)).any (fun t =>
      t.inFlight.isEmpty && decide (t.shared.cancelled = false ∧
        t.shared.ledger.status "b" = .failed ∧ t.shared.ledger.status "d" = .pending)) = true := by
    decide
  obtain ⟨t, hsome, htest⟩ := (Option.any_eq_true _ _).mp hrun
  rw [Bool.and_eq_true, decide_eq_true_eq, List.isEmpty_iff] at htest
  obtain ⟨hidle, hopen, hb, hd⟩ := htest
  obtain ⟨deeds, htrace⟩ := Trace.nil.turns (turns_of_steps? hsome)
  -- nothing stands in the way of a root
  have hroot : echoPlan.Eligible t.shared.ledger.status ⟨none, [], 1, echoPlan.roots[1]⟩ := by
    refine ⟨by simp [Plan.sites, echoPlan, Node.sitesAll, Node.sites], hd, fun a ha => ?_⟩
    have hbelow : ∀ a ∈ echoPlan.sites, "d" ∉ Node.idsAll a.node.children := by decide
    exact Node.passes_of_notMem (hbelow a ha)
  obtain ⟨hrunning, -, hstart, -⟩ :=
    bounded_progress Nat.one_pos rfl hp echoShared_atRest htrace
  obtain ⟨t₁, t₂, next, -, htakes, hdoes, hnext⟩ :=
    (hstart hopen _ hroot).resolve_left fun hcall => hcall hidle
  exact ⟨⟨rfl, hp, echoShared_atRest⟩, _, t, htrace, hb, hrunning, t₁, t₂, next, htakes, hdoes, hnext⟩

end Traversal

end PlanRunner
