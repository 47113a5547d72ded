import PlanRunner.Proofs.Cli.Progress
import PlanRunner.Proofs.Engine.Chronicle
import PlanRunner.Proofs.Run.Log

/-!
# PlanRunner — every log line is shown once

The states of all runs go out over one channel, and those who listen may miss some. The log of a
state goes on from the logs of all states of the same run before it, and the last state of a run
has the log that is filed. So whoever gets the last state of a run, and any of the others, can show
the log of the run without a gap and without a repetition.

* `Engine.published` — what is published about one run;
* `Engine.Recounts` — what has been published about the runs so far;
* `Engine.logs_shown_once` — what can be shown of a run from a choice of its states.
-/

namespace PlanRunner.Engine

/-- The states of the run with an id. -/
def published (id : String) (states : List RunState) : List RunState :=
  states.filter fun x => x.id = id

/-- A state that is published counts for its own run only. -/
theorem published_append (id : String) (states : List RunState) (x : RunState) :
    published id (states ++ [x]) =
      if x.id = id then published id states ++ [x] else published id states := by
  by_cases hid : x.id = id
  · simp [published, List.filter_append, hid]
  · simp [published, List.filter_append, hid]

/-- What was published of a run has its id. -/
theorem id_of_mem_published {id : String} {states : List RunState} {x : RunState}
    (h : x ∈ published id states) : x.id = id := by
  simpa using (List.mem_filter.mp h).2

/-- The states of a run that is over: the last one announces the entry, and the others are
running. -/
structure ToldTo (entry : HistoryEntry) (earlier : List RunState) (final : RunState) : Prop where
  announces : Announces final entry
  ended : final.status ≠ .running
  running : ∀ x ∈ earlier, x.status = .running

variable {σ : Type} {s : Services σ} {e e' : Engine σ} {seen : List (Received RunState)}
  {states : List RunState} {filed : List HistoryEntry} {r r' : Run}

/-- What has been published about the runs that were accepted. The logs of the states of a run go on
from one another; those of the active run lead up to its log, and those of a run that was filed to
what is filed. -/
structure Recounts (e : Engine σ) (states : List RunState) (filed : List HistoryEntry) : Prop where
  known : ∀ x ∈ states, x.id ∈ runIds e.accepted
  grows : ∀ id, (published id states).Pairwise fun x y => x.logs <+: y.logs
  active : ∀ r, e.active = some r → ∀ x ∈ published r.id states,
    x.status = .running ∧ x.logs <+: r.ledger.logs
  ended : ∀ entry ∈ filed, ∃ earlier final, published entry.id states = earlier ++ [final] ∧
    ToldTo entry earlier final

/-- Before the first run nothing was published. -/
theorem Recounts.start (settings : Settings) (server : Facts) (world : σ) (nowMs : Nat) :
    Recounts (.start settings server world nowMs) [] [] where
  known := fun _ hx => absurd hx List.not_mem_nil
  grows := fun _ => List.Pairwise.nil
  active := fun _ hactive => absurd hactive (by simp)
  ended := fun _ hentry => absurd hentry List.not_mem_nil

/-- Nothing is published, and the active run has logged more at most. -/
theorem Recounts.quiet (h : Recounts e states filed) (haccepted : e'.accepted = e.accepted)
    (hactive : ∀ r', e'.active = some r' →
      ∃ r, e.active = some r ∧ r'.id = r.id ∧ r.ledger.logs <+: r'.ledger.logs) :
    Recounts e' states filed where
  known := by
    rw [haccepted]
    exact h.known
  grows := h.grows
  active := by
    intro r' hr' x hx
    obtain ⟨r, hr, hid, hlogs⟩ := hactive r' hr'
    rw [hid] at hx
    obtain ⟨hrunning, hprefix⟩ := h.active r hr x hx
    exact ⟨hrunning, hprefix.trans hlogs⟩
  ended := h.ended

/-- A state is published whose log goes on from those of the states of its run. -/
theorem Recounts.pairwise (h : Recounts e states filed) {x : RunState}
    (hlogs : ∀ y ∈ published x.id states, y.logs <+: x.logs) (id : String) :
    (published id (states ++ [x])).Pairwise fun x y => x.logs <+: y.logs := by
  rw [published_append]
  split
  · rename_i hid
    rw [List.pairwise_append]
    refine ⟨h.grows id, List.pairwise_singleton _ _, fun y hy z hz => ?_⟩
    rw [List.mem_singleton.mp hz]
    exact hlogs y (hid ▸ hy)
  · exact h.grows id

/-- A state of another run is nothing to the states of a run that was filed. -/
theorem Recounts.ended_append (h : Recounts e states filed) {x : RunState}
    (hnew : ∀ entry ∈ filed, entry.id ≠ x.id) : ∀ entry ∈ filed, ∃ earlier final,
      published entry.id (states ++ [x]) = earlier ++ [final] ∧ ToldTo entry earlier final := by
  intro entry hentry
  rw [published_append, if_neg (Ne.symm (hnew entry hentry))]
  exact h.ended entry hentry

/-- A new state is of a run that was accepted. -/
theorem Recounts.known_append (h : Recounts e states filed) {x : RunState}
    (hx : x.id ∈ runIds e.accepted) : ∀ y ∈ states ++ [x], y.id ∈ runIds e.accepted := by
  intro y hy
  rcases List.mem_append.mp hy with hy | hy
  · exact h.known y hy
  · rw [List.mem_singleton.mp hy]
    exact hx

/-- The active run goes on and publishes its state. -/
theorem Recounts.tells (h : Recounts e states filed) (haccepted : e'.accepted = e.accepted)
    (hactive : e.active = some r) (hactive' : e'.active = some r') (hid : r'.id = r.id)
    (hmem : r.id ∈ runIds e.accepted) (hnew : ∀ entry ∈ filed, entry.id ≠ r.id)
    (hlogs : r.ledger.logs <+: r'.ledger.logs) {x : RunState} (hx : x.id = r.id)
    (hrunning : x.status = .running) (hxlogs : x.logs = r'.ledger.logs) :
    Recounts e' (states ++ [x]) filed where
  known := by
    rw [haccepted]
    exact h.known_append (hx ▸ hmem)
  grows := by
    -- every earlier state of the run has a log that its ledger went on from
    refine h.pairwise fun y hy => ?_
    rw [hx] at hy
    rw [hxlogs]
    exact (h.active r hactive y hy).2.trans hlogs
  active := by
    intro q hq y hy
    obtain rfl := Option.some.inj (hactive'.symm.trans hq)
    rw [hid, published_append, if_pos hx] at hy
    rcases List.mem_append.mp hy with hy | hy
    · obtain ⟨hstatus, hprefix⟩ := h.active r hactive y hy
      exact ⟨hstatus, hprefix.trans hlogs⟩
    · rw [List.mem_singleton.mp hy]
      exact ⟨hrunning, hxlogs ▸ List.prefix_rfl⟩
  ended := h.ended_append (hx ▸ hnew)

/-- A run is accepted and publishes its state. Nothing has been published under its id. -/
theorem Recounts.opens (h : Recounts e states filed) (haccepted : e'.accepted = e.accepted + 1)
    (hactive : e'.active = some r) (hid : r.id = runId (e.accepted + 1))
    (hnew : ∀ entry ∈ filed, entry.id ≠ r.id) {x : RunState} (hx : x.id = r.id)
    (hrunning : x.status = .running) (hxlogs : x.logs = r.ledger.logs) :
    Recounts e' (states ++ [x]) filed := by
  -- the number is new, so nothing was published of the run before
  have hfresh : published r.id states = [] := by
    refine List.filter_eq_nil_iff.mpr fun y hy => ?_
    have hknown := h.known y hy
    have hd := runIds_nodup (e.accepted + 1)
    rw [runIds_succ, ← hid, List.nodup_append] at hd
    simpa using hd.2.2 y.id hknown r.id List.mem_cons_self
  refine ⟨?_, ?_, ?_, h.ended_append (hx ▸ hnew)⟩
  · rw [haccepted, runIds_succ]
    intro y hy
    rcases List.mem_append.mp hy with hy | hy
    · exact List.mem_append_left _ (h.known y hy)
    · rw [List.mem_singleton.mp hy, hx, hid]
      exact List.mem_append_right _ List.mem_cons_self
  · refine h.pairwise fun y hy => ?_
    rw [hx, hfresh] at hy
    exact absurd hy List.not_mem_nil
  · intro q hq y hy
    obtain rfl := Option.some.inj (hactive.symm.trans hq)
    rw [published_append, if_pos hx, hfresh, List.nil_append] at hy
    rw [List.mem_singleton.mp hy]
    exact ⟨hrunning, hxlogs ▸ List.prefix_rfl⟩

/-- The active run is filed, and its last state is published. -/
theorem Recounts.closes (h : Recounts e states filed) (haccepted : e'.accepted = e.accepted)
    (hactive : e.active = some r) (hfree : e'.active = none) (hmem : r.id ∈ runIds e.accepted)
    (hnew : ∀ entry ∈ filed, entry.id ≠ r.id) {x : RunState} {entry : HistoryEntry}
    (hannounces : Announces x entry) (hended : x.status ≠ .running) (hx : x.id = r.id)
    (hlogs : r.ledger.logs <+: x.logs) : Recounts e' (states ++ [x]) (filed ++ [entry]) where
  known := by
    rw [haccepted]
    exact h.known_append (hx ▸ hmem)
  grows := by
    -- the last state goes on from what the run had logged until then
    refine h.pairwise fun y hy => ?_
    rw [hx] at hy
    exact (h.active r hactive y hy).2.trans hlogs
  active := by
    intro q hq
    exact absurd (hfree.symm.trans hq) (by simp)
  ended := by
    intro other hother
    rcases List.mem_append.mp hother with hother | hother
    · exact h.ended_append (hx ▸ hnew) other hother
    · rw [List.mem_singleton.mp hother, ← hannounces.id, published_append, if_pos rfl, hx]
      exact ⟨published r.id states, x, rfl, hannounces, hended,
        fun y hy => (h.active r hactive y hy).1⟩

/-- A run that is cancelled has logged nothing more. -/
theorem cancel_quiet (e : Engine σ) :
    e.cancel.2.around.bus = e.around.bus ∧ e.cancel.2.history = e.history ∧
      ∀ r', e.cancel.2.active = some r' →
        ∃ r, e.active = some r ∧ r'.id = r.id ∧ r.ledger.logs <+: r'.ledger.logs := by
  unfold Engine.cancel
  split
  · exact ⟨rfl, rfl, fun r' hr' => ⟨r', hr', rfl, List.prefix_rfl⟩⟩
  · rename_i r hactive
    refine ⟨rfl, rfl, fun r' hr' => ?_⟩
    obtain rfl := Option.some.inj hr'
    exact ⟨r, hactive, rfl, List.prefix_rfl⟩

/-- A step publishes nothing, or one state that goes on with what has been published about its
run. -/
theorem Recounts.step {capacity : Nat} (h : Recounts e states filed)
    (htally : Tally capacity e (states.map .item) filed) (he : e.Registered)
    (hstep : Step s e e') : ∃ states', states.map .item ++ e.heard e' = states'.map .item ∧
      Recounts e' states' (filed ++ e.added e') := by
  -- the active run is one of those that were accepted, and it has not been filed
  have honce := htally.once
  have hactivemem : ∀ {r}, e.active = some r → r.id ∈ runIds e.accepted := by
    intro r hactive
    rw [← honce, hactive]
    simp
  have hactivenew : ∀ {r}, e.active = some r → ∀ entry ∈ filed, entry.id ≠ r.id := by
    intro r hactive entry hentry
    have hd := runIds_nodup e.accepted
    rw [← honce, hactive, List.nodup_append] at hd
    exact hd.2.2 entry.id (List.mem_map_of_mem hentry) r.id (by simp)
  have hsilent : e'.around.bus = e.around.bus → e'.history = e.history →
      Recounts e' states filed → ∃ states', states.map .item ++ e.heard e' = states'.map .item ∧
        Recounts e' states' (filed ++ e.added e') := by
    intro hbus hhistory hrecounts
    rw [heard_of_same hbus, added_of_same hhistory, List.append_nil, List.append_nil]
    exact ⟨states, rfl, hrecounts⟩
  have htells : ∀ {x : RunState}, e'.around.bus = e.around.bus.publish x → e'.history = e.history →
      Recounts e' (states ++ [x]) filed →
      ∃ states', states.map .item ++ e.heard e' = states'.map .item ∧
        Recounts e' states' (filed ++ e.added e') := by
    intro x hbus hhistory hrecounts
    rw [heard_of_publish htally.room hbus, added_of_same hhistory, List.append_nil]
    exact ⟨states ++ [x], by simp, hrecounts⟩
  cases hstep with
  | accept haccept =>
    obtain ⟨hfree, hactive, haccepted, hhistory⟩ := accept_eq_ok haccept
    rw [hfree] at honce
    refine htells (accept_bus haccept) hhistory
      (h.opens haccepted hactive rfl (fun entry hentry hid => ?_) rfl rfl rfl)
    -- what was filed had been accepted, and the next id is new
    have hd := runIds_nodup (e.accepted + 1)
    rw [runIds_succ, ← honce, List.nodup_append] at hd
    exact hd.2.2 entry.id (by simp [List.mem_map_of_mem hentry]) _ List.mem_cons_self hid
  | @run r x hactive hrun =>
    have hcontinues := hrun.continues
    rcases hcontinues.bus with hbus | ⟨state, hid, hrunning, hlogs, hbus⟩
    · refine hsilent hbus rfl (h.quiet rfl fun r' hr' => ?_)
      obtain rfl := Option.some.inj hr'
      exact ⟨r, hactive, hcontinues.id_eq, hcontinues.logs⟩
    · have haccepted : (e.goOn x).accepted = e.accepted := rfl
      exact htells hbus rfl (h.tells haccepted hactive (goOn_active e x) hcontinues.id_eq
        (hactivemem hactive) (hactivenew hactive) hcontinues.logs hid hrunning hlogs)
  | @finish r error hactive hphase =>
    have haccepted : (e.finish r error).accepted = e.accepted := rfl
    let logged := r.log s!"Run {(Run.endStatus error).name}"
    let final := logged.state (Run.endStatus error) (some r.resultText) (error.map RunError.message)
    have hbus : (e.finish r error).around.bus = e.around.bus.publish final := rfl
    have hhistory : (e.finish r error).history =
        e.history.push (logged.entry error e.around.nowMs) := rfl
    have hunfiled : ∀ entry ∈ e.history.entries, entry.id ≠ r.id := he.unfiled hactive
    have hlogs : r.ledger.logs <+: final.logs := List.prefix_append _ _
    rw [heard_of_publish htally.room hbus, added_of_push hhistory hunfiled]
    exact ⟨states ++ [final], by simp, h.closes haccepted hactive rfl (hactivemem hactive)
      (hactivenew hactive) ⟨rfl, rfl, rfl, rfl, rfl, rfl⟩ (endStatus_ne_running error) rfl hlogs⟩
  | cancel =>
    obtain ⟨hbus, hhistory, hlogs⟩ := cancel_quiet e
    exact hsilent hbus hhistory (h.quiet (cancel_accepted e) hlogs)
  | close => exact hsilent rfl rfl (h.quiet rfl fun r' hr' => ⟨r', hr', rfl, List.prefix_rfl⟩)
  | wait untilMs =>
    exact hsilent rfl rfl (h.quiet rfl fun r' hr' => ⟨r', hr', rfl, List.prefix_rfl⟩)

/-- Along all that is watched the account of the published logs holds. -/
theorem Watched.recounts {settings : Settings} {server : Facts} {world : σ} {nowMs : Nat}
    (h : Watched s (.start settings server world nowMs) e seen filed) :
    ∃ states, seen = states.map .item ∧ Recounts e states filed := by
  induction h with
  | start => exact ⟨[], rfl, .start settings server world nowMs⟩
  | step hwatched hstep ih =>
    obtain ⟨states, rfl, hrecounts⟩ := ih
    exact hrecounts.step hwatched.tally
      ((Registered.start settings server world nowMs).steps hwatched.steps) hstep

/-- **Each log line is shown once.** Whatever an engine does from its start, with any number of
replans and adjustments in its runs, and whoever listens all the time misses nothing of what is
published. Of any two states of a run the log of the later one goes on from that of the earlier. Of
a run that has been filed the last state announces what is filed, and the logs of all states before
lead up to the log that is filed. From any choice of the states of such a run that has the last one,
all lines of this log are shown, each once and in order, and then, once, how the run ended. -/
theorem logs_shown_once {settings : Settings} {server : Facts} {world : σ} {nowMs : Nat}
    (h : Watched s (.start settings server world nowMs) e seen filed) :
    ∃ states : List RunState, seen = states.map .item ∧
      (∀ id, (published id states).Pairwise fun x y => x.logs <+: y.logs) ∧
      ∀ entry ∈ filed, ∃ earlier final, published entry.id states = earlier ++ [final] ∧
        ToldTo entry earlier final ∧ (∀ x ∈ earlier, x.logs <+: entry.logs) ∧
        ∀ told : List RunState, told.Sublist (published entry.id states) → final ∈ told →
          Cli.Shown entry.logs entry.status (Cli.progressOf none told) := by
  obtain ⟨states, rfl, hrecounts⟩ := h.recounts
  refine ⟨states, rfl, hrecounts.grows, fun entry hentry => ?_⟩
  obtain ⟨earlier, final, hpublished, htold⟩ := hrecounts.ended entry hentry
  have hpairs := hrecounts.grows entry.id
  rw [hpublished] at hpairs ⊢
  -- of two states of one run the earlier log is a prefix of the later
  have hlogs : ∀ x ∈ earlier, x.logs <+: final.logs := fun x hx =>
    (List.pairwise_append.mp hpairs).2.2 x hx final List.mem_cons_self
  refine ⟨earlier, final, rfl, htold, fun x hx => htold.announces.logs ▸ hlogs x hx, ?_⟩
  intro told hsublist hfinal
  have hfollows : Cli.Follows entry.id none told final :=
    Cli.follows_of_sublist (fun x hx => id_of_mem_published (hpublished ▸ hx)) htold.running
      htold.ended hpairs hsublist hfinal
  have hshown := hfollows.shown
  rw [htold.announces.status, htold.announces.logs] at hshown
  exact hshown

-- ---------------------------------------------------------------------------
-- A replan, of which only the end is heard
-- ---------------------------------------------------------------------------

/-- A node fails and is replaced, and then the run is cancelled. Who got nothing but its last state
shows all of its log. -/
theorem logs_shown_once_echo :
    ∃ e seen filed entry final, Watched echoServices (.start echoServices.settings .empty () 0) e
        seen filed ∧ entry ∈ filed ∧ entry.logs.length = 6 ∧ Received.item final ∈ seen ∧
      Cli.Shown entry.logs entry.status (Cli.progressOf none [final]) := by
  have hrun : ((Engine.start echoServices.settings .empty () 0).cancelled? echoServices "q" 8 3).any
      (fun e => decide (e.history.entries.map (fun entry => entry.logs.length) = [6])) = true := by
    decide +kernel
  obtain ⟨e, hend, htest⟩ := (Option.any_eq_true _ _).mp hrun
  obtain ⟨entry, hentry, hlength⟩ : ∃ entry ∈ e.history.entries, entry.logs.length = 6 := by
    rw [← List.mem_map, of_decide_eq_true htest]
    exact List.mem_cons_self
  obtain ⟨seen, filed, hwatched⟩ := (reaches_of_cancelled? hend).steps.watched
  have hfiled : entry ∈ filed :=
    List.mem_reverse.mp (List.mem_of_mem_take (hwatched.tally.keeps.mem_entries.mp hentry))
  obtain ⟨states, hseen, -, htold⟩ := logs_shown_once hwatched
  obtain ⟨earlier, final, hpublished, -, -, hshown⟩ := htold entry hfiled
  have hfinal : final ∈ published entry.id states := by
    rw [hpublished]
    exact List.mem_append_right _ List.mem_cons_self
  refine ⟨e, seen, filed, entry, final, hwatched, hfiled, hlength, ?_,
    hshown [final] (List.singleton_sublist.mpr hfinal) List.mem_cons_self⟩
  rw [hseen]
  exact List.mem_map_of_mem (List.mem_of_mem_filter hfinal)

end PlanRunner.Engine
