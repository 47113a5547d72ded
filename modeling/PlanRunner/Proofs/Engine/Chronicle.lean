import PlanRunner.Proofs.Engine.Cancellation
import PlanRunner.Proofs.Run.Event

/-!
# PlanRunner — one run, one entry

A run may end in many ways, and each of them comes to the same place: the run is filed, and its
last state is published. Here somebody listens to an engine all the time and keeps a list of
whatever is filed, so nothing is forgotten that the engine itself forgets. The two lists and the
ids under which runs were accepted belong to each other one by one, and what can be read from the
history is the end of the list.

* `Engine.Command`, `Engine.serveAll` — what an engine is asked for, one command after the other;
* `Engine.Watched` — what is heard of an engine and what it files, step by step;
* `Engine.Chronicle` — how this belongs to the runs that were accepted and to the history;
* `Engine.Answers` — how a single command is answered;
* `Engine.one_entry_per_run` — both for every sequence of commands.
-/

namespace PlanRunner

namespace Broadcast

variable {α : Type}

/-- Who has got everything gets nothing. -/
theorem drain_published (b : Broadcast α) : (b.drain b.published).1 = [] := by
  have hle : b.dropped ≤ b.published := Nat.le_add_right _ _
  simp only [drain, if_neg (Nat.not_lt.mpr hle), max_eq_left hle, List.nil_append]
  rw [published, Nat.add_sub_cancel_left, List.drop_length, List.map_nil]

@[simp] theorem capacity_publish (b : Broadcast α) (a : α) :
    (b.publish a).capacity = b.capacity := by
  simp only [publish]
  split
  · rfl
  · rfl

/-- Who has got everything gets what is published next, and misses nothing. -/
theorem drain_publish {b : Broadcast α} (h : 0 < b.capacity) (a : α) :
    ((b.publish a).drain b.published).1 = [.item a] := by
  -- the subscriber has read all that was published before, so the new item is what is left
  have hlast : (b.kept ++ [a]).drop b.kept.length = [a] := List.drop_left
  by_cases hfull : b.capacity < (b.kept ++ [a]).length
  · -- one item makes room, and there is one
    have hkept : 0 < b.kept.length := by
      rw [List.length_append, List.length_singleton] at hfull
      omega
    have hle : b.dropped + 1 ≤ b.published := by
      rw [published]
      omega
    have hstart : 1 + (b.published - (b.dropped + 1)) = b.kept.length := by
      rw [published]
      omega
    simp only [drain, publish, if_pos hfull, if_neg (Nat.not_lt.mpr hle), max_eq_left hle,
      List.nil_append, List.drop_drop]
    rw [hstart, hlast, List.map_singleton]
  · have hle : b.dropped ≤ b.published := Nat.le_add_right _ _
    have hstart : b.published - b.dropped = b.kept.length := Nat.add_sub_cancel_left ..
    simp only [drain, publish, if_neg hfull, if_neg (Nat.not_lt.mpr hle), max_eq_left hle,
      List.nil_append]
    rw [hstart, hlast, List.map_singleton]

end Broadcast

namespace History

variable {h : History} {filed : List HistoryEntry}

/-- Whether a history holds the end of a list of what was filed, up to its capacity. -/
def Keeps (h : History) (filed : List HistoryEntry) : Prop :=
  h.entries = filed.drop (filed.length - h.capacity)

/-- Filing one more entry keeps the newest ones. -/
theorem Keeps.push (hkeeps : h.Keeps filed) (hcapacity : 0 < h.capacity) (entry : HistoryEntry) :
    (h.push entry).Keeps (filed ++ [entry]) := by
  have hkept : h.entries.length = filed.length - (filed.length - h.capacity) := by
    rw [hkeeps, List.length_drop]
  have hroom : filed.length - h.capacity + (h.entries.length + 1 - h.capacity) =
      filed.length + 1 - h.capacity := by omega
  have hle : filed.length + 1 - h.capacity ≤ filed.length := by omega
  show h.entries.drop (h.entries.length + 1 - h.capacity) ++ [entry] =
    (filed ++ [entry]).drop ((filed ++ [entry]).length - h.capacity)
  rw [List.length_append, List.length_singleton, List.drop_append_of_le_length hle, ← hroom,
    ← List.drop_drop, ← hkeeps]

/-- Newest first, the entries are the last that were filed. -/
theorem Keeps.reverse_entries (hkeeps : h.Keeps filed) :
    h.entries.reverse = filed.reverse.take h.capacity := by
  rw [hkeeps, List.reverse_drop, List.take_eq_take_iff, List.length_reverse]
  omega

/-- What is read from a history are the latest of what was filed, newest first. -/
theorem Keeps.recent (hkeeps : h.Keeps filed) (limit : Nat) :
    h.recent limit = filed.reverse.take (min limit h.capacity) := by
  rw [History.recent, hkeeps.reverse_entries, List.take_take]

/-- An entry is kept exactly when it is among the newest. -/
theorem Keeps.mem_entries (hkeeps : h.Keeps filed) {entry : HistoryEntry} :
    entry ∈ h.entries ↔ entry ∈ filed.reverse.take h.capacity := by
  rw [← List.mem_reverse, hkeeps.reverse_entries]

/-- Where each run has one entry, the entry with an id is found. -/
theorem get?_eq_some_iff (hdistinct : (h.entries.map HistoryEntry.id).Nodup) {id : String}
    {entry : HistoryEntry} : h.get? id = some entry ↔ entry ∈ h.entries ∧ entry.id = id := by
  have hfound : ∀ {x}, h.get? id = some x → x ∈ h.entries ∧ x.id = id := fun hx =>
    ⟨List.mem_of_find?_eq_some hx, by simpa using List.find?_some hx⟩
  refine ⟨hfound, fun ⟨hmem, hid⟩ => ?_⟩
  have hsome : (h.get? id).isSome = true :=
    List.find?_isSome.mpr ⟨entry, hmem, by rw [hid, beq_self_eq_true]⟩
  obtain ⟨x, hx⟩ := Option.isSome_iff_exists.mp hsome
  obtain ⟨hxmem, hxid⟩ := hfound hx
  rw [hx, List.inj_on_of_nodup_map hdistinct hxmem hmem (hxid.trans hid.symm)]

end History

namespace Engine

variable {σ : Type}

-- ---------------------------------------------------------------------------
-- What is heard and what is filed
-- ---------------------------------------------------------------------------

/-- What somebody hears in a step who has heard everything before. -/
def heard (e e' : Engine σ) : List (Received RunState) :=
  (e'.around.bus.drain e.around.bus.published).1

/-- What the history has after a step of runs that it had no entry of. -/
def added (e e' : Engine σ) : List HistoryEntry :=
  e'.history.entries.filter fun entry => entry.id ∉ e.history.entries.map HistoryEntry.id

/-- What is heard of an engine that gets from `e₀` to where it stands, and what it files on
this way. -/
inductive Watched (s : Services σ) (e₀ : Engine σ) :
    Engine σ → List (Received RunState) → List HistoryEntry → Prop where
  | start : Watched s e₀ e₀ [] []
  | step {e e' : Engine σ} {seen : List (Received RunState)} {filed : List HistoryEntry}
      (h : Watched s e₀ e seen filed) (hstep : Step s e e') :
      Watched s e₀ e' (seen ++ e.heard e') (filed ++ e.added e')

/-- Whether the last state that is published about a run tells what is filed about it. -/
structure Announces (x : RunState) (entry : HistoryEntry) : Prop where
  id : x.id = entry.id
  query : x.query = entry.query
  status : x.status = entry.status
  result : x.result = some entry.result.text
  error : x.error = entry.result.error
  logs : x.logs = entry.logs

/-- Whether nothing was missed of what is heard, and the states that are not running announce the
entries one by one. -/
def Told (seen : List (Received RunState)) (filed : List HistoryEntry) : Prop :=
  ∃ states : List RunState, seen = states.map .item ∧
    List.Forall₂ Announces (states.filter fun x => x.status ≠ .running) filed

/-- How what is heard of an engine and what it files belong to the runs that were accepted, each
once and in the same order, and to the history: there is an entry, and a state that announces it,
for every run but the active one, and the history gives the latest of the entries, newest first, and
finds those that it keeps. -/
structure Chronicle (capacity : Nat) (e : Engine σ) (ids : List String)
    (seen : List (Received RunState)) (filed : List HistoryEntry) : Prop where
  distinct : ids.Nodup
  once : filed.map HistoryEntry.id ++ (e.active.map Run.id).toList = ids
  told : Told seen filed
  recent : ∀ limit, e.history.recent limit = filed.reverse.take (min limit (max capacity 1))
  found : ∀ id entry, entry? e id = some entry ↔
    entry ∈ filed.reverse.take (max capacity 1) ∧ entry.id = id

variable {s : Services σ} {e e' e₀ : Engine σ} {seen : List (Received RunState)}
  {filed : List HistoryEntry}

/-- What was watched are steps. -/
theorem Watched.steps (h : Watched s e₀ e seen filed) : Steps s e₀ e := by
  induction h with
  | start => exact .refl
  | step _ hstep ih => exact ih.tail hstep

/-- Whichever way an engine takes, it can be watched. -/
theorem Steps.watched (h : Steps s e₀ e) : ∃ seen filed, Watched s e₀ e seen filed := by
  induction h with
  | refl => exact ⟨_, _, .start⟩
  | tail _ hstep ih =>
    obtain ⟨_, _, hwatched⟩ := ih
    exact ⟨_, _, hwatched.step hstep⟩

/-- A step that publishes nothing is not heard of. -/
theorem heard_of_same (h : e'.around.bus = e.around.bus) : e.heard e' = [] := by
  rw [heard, h, Broadcast.drain_published]

/-- A step that publishes a state is heard of once. -/
theorem heard_of_publish {x : RunState} (hcapacity : 0 < e.around.bus.capacity)
    (h : e'.around.bus = e.around.bus.publish x) : e.heard e' = [.item x] := by
  rw [heard, h, Broadcast.drain_publish hcapacity]

theorem added_of_same (h : e'.history = e.history) : e.added e' = [] := by
  rw [added, h, List.filter_eq_nil_iff]
  intro entry hentry
  simpa using ⟨entry, hentry, rfl⟩

/-- An entry under a new id is seen to be added, whatever makes room for it. -/
theorem added_of_push {entry : HistoryEntry} (h : e'.history = e.history.push entry)
    (hnew : ∀ other ∈ e.history.entries, other.id ≠ entry.id) : e.added e' = [entry] := by
  have hold : (e.history.entries.drop (e.history.entries.length + 1 - e.history.capacity)).filter
      (fun x => x.id ∉ e.history.entries.map HistoryEntry.id) = [] := by
    rw [List.filter_eq_nil_iff]
    intro other hother
    simpa using ⟨other, List.mem_of_mem_drop hother, rfl⟩
  have hself : entry.id ∉ e.history.entries.map HistoryEntry.id := by
    rw [List.mem_map]
    rintro ⟨other, hother, hid⟩
    exact hnew other hother hid
  rw [added, h, History.push, List.filter_append, hold, List.nil_append, List.filter_singleton,
    decide_eq_true hself]
  rfl

-- ---------------------------------------------------------------------------
-- One step
-- ---------------------------------------------------------------------------

/-- What a step of an engine says about the run it is about: the active run, if there is one, goes
on; a run is accepted; or the active run is filed, and its last state is published. -/
inductive Reports (e e' : Engine σ) : Prop where
  | goesOn (hbus : e'.around.bus = e.around.bus ∨
        ∃ x : RunState, x.status = .running ∧ e'.around.bus = e.around.bus.publish x)
      (hhistory : e'.history = e.history) (haccepted : e'.accepted = e.accepted)
      (hactive : e'.active.map Run.id = e.active.map Run.id)
  | accepts {x : RunState} (hrunning : x.status = .running)
      (hbus : e'.around.bus = e.around.bus.publish x) (hhistory : e'.history = e.history)
      (haccepted : e'.accepted = e.accepted + 1) (hfree : e.active = none)
      (hactive : e'.active.map Run.id = some (runId (e.accepted + 1)))
  | files {x : RunState} {r : Run} {entry : HistoryEntry} (hended : x.status ≠ .running)
      (hannounces : Announces x entry) (hbus : e'.around.bus = e.around.bus.publish x)
      (hhistory : e'.history = e.history.push entry) (haccepted : e'.accepted = e.accepted)
      (hactive : e.active = some r) (hid : entry.id = r.id) (hfree : e'.active = none)

/-- No run ends as running. -/
theorem endStatus_ne_running (error : Option RunError) : Run.endStatus error ≠ .running := by
  unfold Run.endStatus
  split
  · exact RunStatus.noConfusion
  · exact RunStatus.noConfusion

/-- What is published of a run that is accepted. -/
theorem accept_bus {query : String} {request : Facts} (h : e.accept query request = .ok e') :
    e'.around.bus =
      e.around.bus.publish (Run.start e.nextId query request e.around.nowMs).current := by
  unfold accept at h
  split at h
  · exact absurd h (by simp)
  · simp only at h
    split at h
    · exact absurd h (by simp)
    · rw [← Except.ok.inj h]
      rfl

/-- An accepted run is announced as it starts. -/
theorem accept_reports {query : String} {request : Facts} (h : e.accept query request = .ok e') :
    Reports e e' := by
  obtain ⟨hfree, hactive, haccepted, hhistory⟩ := accept_eq_ok h
  refine .accepts rfl (accept_bus h) hhistory haccepted hfree ?_
  rw [hactive]
  rfl

/-- Every step of the engine starts a run, ends one, or goes on with the one there is. -/
theorem Step.reports (h : Step s e e') : Reports e e' := by
  cases h with
  | accept haccept => exact accept_reports haccept
  -- a step of the run publishes its states under its own id
  | @run r x hactive hrun =>
    obtain ⟨m, hevent⟩ := hrun.event
    refine .goesOn hevent.bus rfl rfl ?_
    rw [goOn_active, hactive, Option.map_some, Option.map_some, hrun.id_eq]
  | @finish r error hactive hphase =>
    exact .files (endStatus_ne_running error) ⟨rfl, rfl, rfl, rfl, rfl, rfl⟩ rfl rfl rfl hactive
      rfl rfl
  | cancel =>
    unfold Engine.cancel
    split
    · exact .goesOn (.inl rfl) rfl rfl rfl
    · rename_i r hactive
      refine .goesOn (.inl rfl) rfl rfl ?_
      rw [hactive]
      rfl
  | close => exact .goesOn (.inl rfl) rfl rfl rfl
  | wait untilMs => exact .goesOn (.inl rfl) rfl rfl rfl

-- ---------------------------------------------------------------------------
-- Any number of steps
-- ---------------------------------------------------------------------------

/-- The ids of the first runs to be accepted. -/
def runIds (accepted : Nat) : List String :=
  (List.range accepted).map fun n => runId (n + 1)

theorem runIds_succ (accepted : Nat) :
    runIds (accepted + 1) = runIds accepted ++ [runId (accepted + 1)] := by
  rw [runIds, List.range_succ, List.map_append, List.map_singleton]
  rfl

/-- No number is given twice. -/
theorem runIds_nodup (accepted : Nat) : (runIds accepted).Nodup :=
  List.Nodup.map (fun _ _ h => Nat.succ_injective (runId_inj h)) List.nodup_range

/-- What is carried from step to step: besides what a chronicle says, that there is room for what
is published, and which entries the history keeps. -/
structure Tally (capacity : Nat) (e : Engine σ) (seen : List (Received RunState))
    (filed : List HistoryEntry) : Prop where
  room : 0 < e.around.bus.capacity
  capacity : e.history.capacity = max capacity 1
  keeps : e.history.Keeps filed
  once : filed.map HistoryEntry.id ++ (e.active.map Run.id).toList = runIds e.accepted
  told : Told seen filed

variable {capacity : Nat}

/-- Before the first run there is nothing to count. -/
theorem Tally.start (settings : Settings) (server : Facts) (world : σ) (nowMs : Nat) :
    Tally settings.historyCapacity (.start settings server world nowMs) [] [] where
  room := show 0 < Broadcast.roundUp publishedCapacity by decide
  capacity := rfl
  keeps := List.drop_nil.symm
  once := rfl
  told := ⟨[], rfl, .nil⟩

/-- The state of a run that goes on announces nothing. -/
theorem Told.running (h : Told seen filed) {x : RunState} (hrunning : x.status = .running) :
    Told (seen ++ [.item x]) filed := by
  obtain ⟨states, rfl, hannounced⟩ := h
  refine ⟨states ++ [x], by rw [List.map_append, List.map_singleton], ?_⟩
  simpa [List.filter_append, hrunning] using hannounced

/-- The last state of a run announces its entry. -/
theorem Told.ended (h : Told seen filed) {x : RunState} {entry : HistoryEntry}
    (hended : x.status ≠ .running) (hannounces : Announces x entry) :
    Told (seen ++ [.item x]) (filed ++ [entry]) := by
  obtain ⟨states, rfl, hannounced⟩ := h
  have hlast : [x].filter (fun x => x.status ≠ .running) = [x] := by simp [hended]
  refine ⟨states ++ [x], by rw [List.map_append, List.map_singleton], ?_⟩
  rw [List.filter_append, hlast]
  exact List.rel_append hannounced (.cons hannounces .nil)

/-- One step adds to what was heard and filed what it reports, and nothing else. -/
theorem Tally.step (h : Tally capacity e seen filed) (he : e.Registered) (hreports : Reports e e') :
    Tally capacity e' (seen ++ e.heard e') (filed ++ e.added e') := by
  have honce := h.once
  have hroom : ∀ {x}, e'.around.bus = e.around.bus.publish x → 0 < e'.around.bus.capacity := by
    intro x hbus
    rw [hbus, Broadcast.capacity_publish]
    exact h.room
  cases hreports with
  | goesOn hbus hhistory haccepted hactive =>
    have htold : 0 < e'.around.bus.capacity ∧ Told (seen ++ e.heard e') filed := by
      rcases hbus with hsame | ⟨x, hrunning, hpublish⟩
      · rw [heard_of_same hsame, List.append_nil, hsame]
        exact ⟨h.room, h.told⟩
      · rw [heard_of_publish h.room hpublish]
        exact ⟨hroom hpublish, h.told.running hrunning⟩
    rw [← hactive, ← haccepted] at honce
    rw [added_of_same hhistory, List.append_nil]
    exact ⟨htold.1, hhistory ▸ h.capacity, hhistory ▸ h.keeps, honce, htold.2⟩
  | @accepts x hrunning hbus hhistory haccepted hfree hactive =>
    rw [hfree, Option.map_none, Option.toList_none, List.append_nil] at honce
    rw [added_of_same hhistory, List.append_nil, heard_of_publish h.room hbus]
    refine ⟨hroom hbus, hhistory ▸ h.capacity, hhistory ▸ h.keeps, ?_, h.told.running hrunning⟩
    rw [hactive, haccepted, runIds_succ, honce, Option.toList_some]
  | @files x r entry hended hannounces hbus hhistory haccepted hactive hid hfree =>
    -- the active run has not been filed before, so its entry is what the history has more
    have hnew : ∀ other ∈ e.history.entries, other.id ≠ entry.id := by
      rw [hid]
      exact he.unfiled hactive
    have hcapacity : 0 < e.history.capacity := by
      rw [h.capacity]
      exact Nat.lt_of_lt_of_le Nat.zero_lt_one (le_max_right _ _)
    rw [hactive, Option.map_some, Option.toList_some, ← hid] at honce
    rw [added_of_push hhistory hnew, heard_of_publish h.room hbus]
    refine ⟨hroom hbus, ?_, ?_, ?_, h.told.ended hended hannounces⟩
    · rw [hhistory]
      exact h.capacity
    · rw [hhistory]
      exact h.keeps.push hcapacity entry
    · rw [hfree, haccepted, ← honce, List.map_append, List.map_singleton, Option.map_none,
        Option.toList_none, List.append_nil]

/-- So the count is right along everything that was watched. -/
theorem Watched.tally {settings : Settings} {server : Facts} {world : σ} {nowMs : Nat}
    (h : Watched s (.start settings server world nowMs) e seen filed) :
    Tally settings.historyCapacity e seen filed := by
  induction h with
  | start => exact .start settings server world nowMs
  | step hwatched hstep ih =>
    have hregistered := (Registered.start settings server world nowMs).steps hwatched.steps
    exact ih.step hregistered hstep.reports

/-- Whatever an engine does from its start, what is heard of it and what it files belong to each
other, to the runs it has accepted and to its history. -/
theorem Watched.chronicle {settings : Settings} {server : Facts} {world : σ} {nowMs : Nat}
    (h : Watched s (.start settings server world nowMs) e seen filed) :
    Chronicle settings.historyCapacity e (runIds e.accepted) seen filed where
  distinct := runIds_nodup e.accepted
  once := h.tally.once
  told := h.tally.told
  recent := by
    intro limit
    rw [h.tally.keeps.recent, h.tally.capacity]
  found := by
    intro id entry
    have hregistered := (Registered.start settings server world nowMs).steps h.steps
    show e.history.get? id = some entry ↔ _
    rw [History.get?_eq_some_iff hregistered.distinct, h.tally.keeps.mem_entries, h.tally.capacity]

-- ---------------------------------------------------------------------------
-- Commands
-- ---------------------------------------------------------------------------

/-- What an engine can be asked for. -/
inductive Command where
  | execute (query : String) (request : Facts) (cancelAfterMs : Option Nat)
  | submit (query : String) (request : Facts)
  | cancel
  | shutdown
  /-- To let some milliseconds pass. -/
  | advance (ms : Nat)
  /-- To wait for the end of the active run. -/
  | settle

/-- Whether a command is to start a run. -/
def Command.starts : Command → Bool
  | .execute _ _ _ => true
  | .submit _ _ => true
  | _ => false

/-- How a command ends. -/
inductive Outcome where
  /-- A run was started. -/
  | accepted (id : String)
  | rejected (error : RunError)
  | done

def Outcome.id? : Outcome → Option String
  | .accepted id => some id
  | _ => none

def serve (s : Services σ) (e : Engine σ) : Command → Outcome × Engine σ
  | .execute query request cancelAfterMs =>
    match e.execute s query request cancelAfterMs with
    | .ok e' => (.accepted e.nextId, e')
    | .error error => (.rejected error, e)
  | .submit query request =>
    match e.submit query request with
    | .ok (id, e') => (.accepted id, e')
    | .error error => (.rejected error, e)
  | .cancel => (.done, e.cancel.2)
  | .shutdown => (.done, e.shutdown s)
  | .advance ms => (.done, e.advance s ms)
  | .settle => (.done, e.carryOn s none)

/-- One command after the other. -/
def serveAll (s : Services σ) : List Command → Engine σ → List Outcome × Engine σ
  | [], e => ([], e)
  | command :: commands, e =>
    let (outcome, e) := e.serve s command
    let (outcomes, e) := serveAll s commands e
    (outcome :: outcomes, e)

/-- How an engine answers a command and where this leaves it. A command to start a run is rejected
after a shutdown, and while a run is active; then nothing has changed. Otherwise the run is
accepted, and who waits for the end of a run finds none active. -/
inductive Answers (e : Engine σ) : Command → Outcome × Engine σ → Prop where
  | closed {command : Command} (hstarts : command.starts = true) (hclosed : e.slot.closed = true) :
    Answers e command (.rejected .cancelled, e)
  | busy {command : Command} {r : Run} (hstarts : command.starts = true)
      (hopen : e.slot.closed = false) (hactive : e.active = some r) :
    Answers e command (.rejected (.busy r.id), e)
  | executed {query : String} {request : Facts} {cancelAfterMs : Option Nat} {e' : Engine σ}
      (hopen : e.slot.closed = false) (hfree : e.active = none) (hdone : e'.active = none) :
    Answers e (.execute query request cancelAfterMs) (.accepted e.nextId, e')
  | submitted {query : String} {request : Facts} {r : Run} {e' : Engine σ}
      (hopen : e.slot.closed = false) (hfree : e.active = none) (hactive : e'.active = some r)
      (hid : r.id = e.nextId) : Answers e (.submit query request) (.accepted e.nextId, e')
  | shutDown {e' : Engine σ} (hclosed : e'.slot.closed = true) (hdone : e'.active = none) :
    Answers e .shutdown (.done, e')
  | settled {e' : Engine σ} (hdone : e'.active = none) : Answers e .settle (.done, e')
  | cancelled {e' : Engine σ} : Answers e .cancel (.done, e')
  | advanced {ms : Nat} {e' : Engine σ} : Answers e (.advance ms) (.done, e')

/-- A cancellation accepts no run. -/
theorem cancel_accepted (e : Engine σ) : e.cancel.2.accepted = e.accepted := by
  unfold Engine.cancel
  split
  · rfl
  · rfl

/-- Carrying a run on accepts no other. -/
theorem carryOn_accepted (s : Services σ) (limit : Option Nat) (e : Engine σ) :
    (e.carryOn s limit).accepted = e.accepted := by
  unfold carryOn
  split
  · rfl
  · simp only
    split
    · rfl
    · rfl

/-- An engine that was shut down stays so. -/
theorem Step.closed (h : Step s e e') (hclosed : e.slot.closed = true) : e'.slot.closed = true := by
  cases h with
  -- a closed engine accepts no run, so it is not opened by one
  | accept haccept =>
    rw [Engine.accept, if_pos hclosed] at haccept
    exact absurd haccept (by simp)
  | run _ _ => exact hclosed
  | finish _ _ => exact hclosed
  | cancel =>
    unfold Engine.cancel
    split
    · exact hclosed
    · exact hclosed
  | close => rfl
  | wait _ => exact hclosed

/-- An engine that was closed stays closed. -/
theorem Steps.closed (h : Steps s e e') (hclosed : e.slot.closed = true) :
    e'.slot.closed = true := by
  induction h with
  | refl => exact hclosed
  | tail _ hstep ih => exact hstep.closed ih

/-- Carried on without a limit, an engine has no active run any more. -/
theorem carryOn_active (he : e.Registered) : (e.carryOn s none).active = none := by
  cases hactive : e.active with
  | none => rw [carryOn, hactive, hactive]
  | some r =>
    obtain ⟨e', r', error, -, -, -, heq⟩ := carryOn_eq_finish (s := s) he hactive
    rw [heq, active_finish]

/-- Whether a run is accepted. -/
theorem accept_cases (e : Engine σ) (query : String) (request : Facts) :
    (e.slot.closed = true ∧ e.accept query request = .error .cancelled) ∨
    (∃ r, e.slot.closed = false ∧ e.active = some r ∧
      e.accept query request = .error (.busy r.id)) ∨
    ∃ e', e.slot.closed = false ∧ e.accept query request = .ok e' := by
  by_cases hclosed : e.slot.closed = true
  · exact .inl ⟨hclosed, by rw [accept, if_pos hclosed]⟩
  · have hopen : e.slot.closed = false := Bool.eq_false_iff.mpr hclosed
    -- closed, busy or free
    cases hactive : e.active with
    | some r =>
      have hslot : e.slot.active = some r := hactive
      refine .inr (.inl ⟨r, hopen, rfl, ?_⟩)
      simp only [accept, if_neg hclosed, Slot.take?, hslot, hactive, Option.map_some,
        Option.getD_some]
    | none =>
      have hslot : e.slot.active = none := hactive
      refine .inr (.inr ?_)
      simp only [accept, if_neg hclosed, Slot.take?, hslot]
      exact ⟨_, hopen, rfl⟩

/-- A shutdown leaves the engine closed, whether or not a run is waited for. -/
theorem shutdown_closed (s : Services σ) (e : Engine σ) : (e.shutdown s).slot.closed = true := by
  have hrest : Steps s { e with slot := e.slot.close } (e.shutdown s) :=
    (Relation.ReflTransGen.single .cancel).trans (steps_carryOn s none _)
  exact hrest.closed rfl

/-- A run that is carried out was accepted, and it has ended. -/
theorem execute_eq_ok {query : String} {request : Facts} {cancelAfterMs : Option Nat}
    (h : e.execute s query request cancelAfterMs = .ok e') :
    e'.accepted = e.accepted + 1 ∧ (e.Registered → e'.active = none) := by
  unfold execute at h
  cases haccept : e.accept query request with
  | error error =>
    rw [haccept] at h
    exact absurd h (by simp [Except.map])
  | ok accepted =>
    rw [haccept] at h
    -- the accepted run is carried to its end, or up to its cancellation and then to its end
    have hregistered : e.Registered → accepted.Registered := fun he =>
      he.step (s := s) (.accept haccept)
    rw [← (accept_eq_ok haccept).2.2.1, ← Except.ok.inj h]
    split
    · exact ⟨carryOn_accepted _ _ _, fun he => carryOn_active (hregistered he)⟩
    · rename_i ms
      have hcarried := steps_carryOn s (some (accepted.around.nowMs + ms)) accepted
      simp only
      split
      · rename_i hdone
        exact ⟨carryOn_accepted _ _ _, fun _ => hdone⟩
      · -- it was not over in time and is cancelled
        refine ⟨?_, fun he => carryOn_active ?_⟩
        · rw [carryOn_accepted, cancel_accepted]
          exact carryOn_accepted _ _ _
        · exact (hregistered he).steps ((hcarried.tail (.wait _)).tail .cancel)

/-- A command is served by steps of the engine. -/
theorem steps_serve (s : Services σ) (e : Engine σ) (command : Command) :
    Steps s e (e.serve s command).2 := by
  cases command with
  | execute query request cancelAfterMs =>
    simp only [serve]
    split
    · rename_i hexecute
      exact steps_execute hexecute
    · exact .refl
  | submit query request =>
    simp only [serve]
    split
    · rename_i hsubmit
      exact steps_submit hsubmit
    · exact .refl
  | cancel => exact .single .cancel
  | shutdown => exact steps_shutdown s e
  | advance ms => exact steps_advance s ms e
  | settle => exact steps_carryOn s none e

/-- Every command is answered as it has to be. -/
theorem serve_answers (he : e.Registered) (command : Command) :
    Answers e command (e.serve s command) := by
  cases command with
  | execute query request cancelAfterMs =>
    rcases accept_cases e query request with ⟨hclosed, haccept⟩ | ⟨r, hopen, hactive, haccept⟩ |
      ⟨e₁, hopen, haccept⟩
    · simp only [serve, execute, haccept, Except.map]
      exact .closed rfl hclosed
    · simp only [serve, execute, haccept, Except.map]
      exact .busy rfl hopen hactive
    · -- an accepted run can always be carried to its end, so there is an outcome to answer with
      obtain ⟨e', hexecute⟩ : ∃ e', e.execute s query request cancelAfterMs = .ok e' := by
        unfold execute
        rw [haccept]
        exact ⟨_, rfl⟩
      simp only [serve, hexecute]
      exact .executed hopen (accept_eq_ok haccept).1 ((execute_eq_ok hexecute).2 he)
  | submit query request =>
    rcases accept_cases e query request with ⟨hclosed, haccept⟩ | ⟨r, hopen, hactive, haccept⟩ |
      ⟨e₁, hopen, haccept⟩
    · simp only [serve, submit, haccept, Except.map]
      exact .closed rfl hclosed
    · simp only [serve, submit, haccept, Except.map]
      exact .busy rfl hopen hactive
    · simp only [serve, submit, haccept, Except.map]
      exact .submitted hopen (accept_eq_ok haccept).1 (accept_eq_ok haccept).2.1 rfl
  | cancel => exact .cancelled
  | shutdown =>
    have hclose : Steps s e { e with slot := e.slot.close } := .single .close
    exact .shutDown (shutdown_closed s e) (carryOn_active (he.steps (hclose.tail .cancel)))
  | advance ms => exact .advanced
  | settle => exact .settled (carryOn_active he)

/-- A command adds the id of the run that it starts. -/
theorem serve_ids (s : Services σ) (e : Engine σ) (command : Command) :
    runIds e.accepted ++ (e.serve s command).1.id?.toList = runIds (e.serve s command).2.accepted := by
  -- one run more is accepted, under the next id
  have hnext : runIds e.accepted ++ [e.nextId] = runIds (e.accepted + 1) := (runIds_succ _).symm
  -- a command that starts no run adds no id
  have hsame : ∀ {n}, n = e.accepted → runIds e.accepted ++ Outcome.done.id?.toList = runIds n := by
    rintro _ rfl
    exact List.append_nil _
  cases command with
  | execute query request cancelAfterMs =>
    simp only [serve]
    split
    · rename_i hexecute
      rw [(execute_eq_ok hexecute).1]
      exact hnext
    · exact hsame rfl
  | submit query request =>
    simp only [serve, submit]
    cases haccept : e.accept query request with
    | error error => exact hsame rfl
    | ok accepted =>
      simp only [Except.map, (accept_eq_ok haccept).2.2.1]
      exact hnext
  | cancel => exact hsame (cancel_accepted e)
  | shutdown => exact hsame ((carryOn_accepted _ _ _).trans (cancel_accepted _))
  | advance ms => exact hsame (carryOn_accepted _ _ _)
  | settle => exact hsame (carryOn_accepted _ _ _)

/-- So are any commands. -/
theorem steps_serveAll (s : Services σ) (commands : List Command) (e : Engine σ) :
    Steps s e (serveAll s commands e).2 := by
  induction commands generalizing e with
  | nil => exact .refl
  | cons command commands ih => exact (steps_serve s e command).trans (ih _)

/-- The runs that the outcomes name are those that were accepted, in their order. -/
theorem serveAll_ids (s : Services σ) (commands : List Command) (e : Engine σ) :
    runIds e.accepted ++ (serveAll s commands e).1.filterMap Outcome.id? =
      runIds (serveAll s commands e).2.accepted := by
  -- induction on the commands: each accepts one run, and names it, or none
  induction commands generalizing e with
  | nil => exact List.append_nil _
  | cons command commands ih =>
    have hsplit : (serveAll s (command :: commands) e).1.filterMap Outcome.id? =
        (e.serve s command).1.id?.toList ++
          (serveAll s commands (e.serve s command).2).1.filterMap Outcome.id? := by
      cases hid : (e.serve s command).1.id? with
      | none => exact List.filterMap_cons_none hid
      | some id => exact List.filterMap_cons_some hid
    rw [hsplit, ← List.append_assoc, serve_ids]
    exact ih _

/-- A shutdown among the commands closes the engine for good. -/
theorem serveAll_closed {commands : List Command} (h : .shutdown ∈ commands) :
    (serveAll s commands e).2.slot.closed = true := by
  induction commands generalizing e with
  | nil => exact absurd h List.not_mem_nil
  | cons command commands ih =>
    rcases List.mem_cons.mp h with rfl | hlater
    · exact (steps_serveAll s commands _).closed (shutdown_closed s e)
    · exact ih hlater

/-- **One run, one entry.** Whatever an engine is asked for from its start, command after command,
and however it is watched on the way: each run that was accepted, under its own id, is filed once
and announced once, in the order in which the runs were accepted, with nothing left out but the
active run; what the history gives are the latest of the entries, as many as it may keep, and it
finds these. A command to start a run is rejected after a shutdown, and while a run is active, and
leaves no trace; who waits for the end of the runs finds all of them filed. -/
theorem one_entry_per_run (s : Services σ) (server : Facts) (world : σ) (nowMs : Nat)
    (commands : List Command) :
    let start := Engine.start s.settings server world nowMs
    let served := serveAll s commands start
    (∃ seen filed, Watched s start served.2 seen filed) ∧
      (∀ seen filed, Watched s start served.2 seen filed →
        Chronicle s.settings.historyCapacity served.2 (served.1.filterMap Outcome.id?) seen filed) ∧
      (.shutdown ∈ commands → served.2.slot.closed = true) ∧
      ∀ command, Answers served.2 command (served.2.serve s command) := by
  intro start served
  have hsteps : Steps s start served.2 := steps_serveAll s commands start
  have hstart : start.Registered := .start s.settings server world nowMs
  have hids : served.1.filterMap Outcome.id? = runIds served.2.accepted :=
    serveAll_ids s commands start
  refine ⟨hsteps.watched, fun seen filed hwatched => ?_, serveAll_closed,
    serve_answers (hstart.steps hsteps)⟩
  rw [hids]
  exact hwatched.chronicle

/-- The second of two runs is rejected as long as the first is active. -/
example : (serveAll echoServices [.submit "q" .empty, .submit "q" .empty, .cancel]
    (.start echoServices.settings .empty () 0)).1 =
      [.accepted "run-1", .rejected (.busy "run-1"), .done] := by
  rfl

end Engine

end PlanRunner
