import PlanRunner.Proofs.Run.Operations

/-!
# PlanRunner — a ledger as one account for each node

What an operation does to one node does not depend on the other nodes. So a ledger amounts to
one account for each node, and after any operations in any order the account of a node can be
told from these operations alone. The sets and the outcomes of the ledger are where the accounts
are kept, each in several places, and these never contradict each other.

* `Account.next`, `Account.after` — what operations do to the account of one node;
* `Ledger.Keeps.next`, `Ledger.Keeps.foldl` — a ledger keeps the account through one operation, and
  through any;
* `Ledger.bookkeeping` — what a ledger says after any operations.
-/

namespace PlanRunner

-- ---------------------------------------------------------------------------
-- Accounts.
-- ---------------------------------------------------------------------------

/-- What is known about one node. -/
inductive Account where
  | pending
  | running
  | ended (outcome : Fragment)

namespace Account

def status : Account → Status
  | .pending => .pending
  | .running => .running
  | .ended outcome => outcome.status

def outcome? : Account → Option Fragment
  | .ended outcome => some outcome
  | _ => none

/-- The account of a node that is to start: only a pending one does. -/
def started : Account → Account
  | .pending => .running
  | a => a

/-- Only a pending account is changed by a start. -/
theorem started_of_ne {a : Account} (h : a.status ≠ .pending) : a.started = a := by
  cases a with
  | pending => exact absurd rfl h
  | running => rfl
  | ended outcome => rfl

/-- A node is reported pending only while its account is. -/
theorem eq_pending {a : Account} (h : a.status = .pending) : a = .pending := by
  cases a with
  | pending => rfl
  | running => cases h
  | ended outcome => cases outcome <;> cases h

/-- The account of a node that is carried over: one that has not ended is pending again. -/
def carried : Account → Account
  | .ended outcome => .ended outcome
  | _ => .pending

/-- What an operation does to the account of the node `id`. -/
def next (id : String) (a : Account) : Ledger.Op → Account
  | .markRunning other => if id = other then a.started else a
  | .markCompleted other value => if id = other then .ended (.completed value) else a
  | .markFailed other error => if id = other then .ended (.failed error) else a
  | .recordFragment _ _ => a
  | .reset ids => if id ∈ ids then .pending else a
  | .carryOver _ keep => if id ∈ keep then a.carried else .pending
  | .log _ => a

/-- The account of the node `id` after some operations. -/
def after (id : String) (ops : List Ledger.Op) : Account := ops.foldl (next id) .pending

end Account

namespace Ledger

/-- The ledger keeps this account of the node `id`. -/
structure Keeps (l : Ledger) (id : String) (a : Account) : Prop where
  running_iff : id ∈ l.running ↔ a = .running
  ended_iff : ∀ outcome, (id, outcome) ∈ l.fragments ↔ a = .ended outcome

-- ---------------------------------------------------------------------------
-- One operation.
-- ---------------------------------------------------------------------------

section
variable {aside : Set String} {l : Ledger} {id : String} {a : Account}

namespace Keeps

/-- The account says how the node stands. -/
theorem status_eq (hl : Orderly aside l) (hid : id ∉ aside) (h : l.Keeps id a) :
    l.status id = a.status := by
  cases a with
  -- the account says which set has the node, and the sets are disjoint
  | pending =>
    refine hl.status_eq_pending (fun outcome hmem => ?_) fun hmem => ?_
    · exact Account.noConfusion ((h.ended_iff outcome).mp hmem)
    · exact Account.noConfusion (h.running_iff.mp hmem)
  | running =>
    have hr : id ∈ l.running := h.running_iff.mpr rfl
    exact status_eq_running_iff.mpr ⟨fun hc => hl.not_mem_running_of_completed hc hr,
      fun hf => hl.not_mem_running_of_failed hf hr, hr⟩
  | ended outcome => exact hl.status_of_mem hid ((h.ended_iff outcome).mpr rfl)

/-- The account says what came of the node. -/
theorem field?_eq (hl : Orderly aside l) (h : l.Keeps id a) :
    field? id l.fragments = a.outcome? := by
  ext outcome
  rw [field?_eq_some_iff hl.fragments_sorted, h.ended_iff]
  cases a <;> simp [Account.outcome?]

/-- In the empty ledger every account is pending. -/
theorem start (total : Nat) (id : String) : (Ledger.start total).Keeps id .pending := by
  constructor <;> simp [Ledger.start]

/-- An account depends on the running set and on the fragments of its id alone. -/
theorem of_same {l' : Ledger} (h : l.Keeps id a) (hrunning : id ∈ l'.running ↔ id ∈ l.running)
    (hfragments : ∀ outcome, (id, outcome) ∈ l'.fragments ↔ (id, outcome) ∈ l.fragments) :
    l'.Keeps id a :=
  ⟨hrunning.trans h.running_iff, fun outcome => (hfragments outcome).trans (h.ended_iff outcome)⟩

/-- A node starts if its account is still pending, and then the account says so. -/
theorem markRunning (hl : Orderly aside l) (hid : id ∉ aside) (h : l.Keeps id a) (other : String) :
    ((Op.markRunning other).perform l).Keeps id (if id = other then a.started else a) := by
  obtain ⟨hsame, hstarted⟩ | ⟨hmark, hpending⟩ := Op.perform_markRunning_cases l other
  · -- the node has started or ended before, and to start it again changes nothing
    rw [hsame]
    by_cases hother : id = other
    · subst hother
      rw [h.status_eq hl hid] at hstarted
      rw [if_pos rfl, Account.started_of_ne hstarted]
      exact h
    · rw [if_neg hother]
      exact h
  · obtain ⟨-, -, -, heq⟩ := markRunning_eq_some_iff.mp hmark
    rw [heq]
    by_cases hother : id = other
    · subst hother
      rw [h.status_eq hl hid] at hpending
      obtain rfl := Account.eq_pending hpending
      rw [if_pos rfl]
      refine ⟨by simp [Account.started], fun outcome => ?_⟩
      exact (h.ended_iff outcome).trans (by simp [Account.started])
    · rw [if_neg hother]
      exact h.of_same (by simp [hother]) fun _ => Iff.rfl

/-- An outcome settles the account of its node. -/
theorem enter (hl : Orderly aside l) (h : l.Keeps id a) (other : String) (outcome : Fragment) :
    (l.enter other outcome).Keeps id (if id = other then .ended outcome else a) := by
  by_cases hid : id = other
  · rw [if_pos hid]
    constructor
    · simp [hid]
    · intro outcome'
      simp [mem_insertField hl.fragments_sorted, hid, eq_comm]
  · rw [if_neg hid]
    refine h.of_same ?_ fun outcome' => ?_
    · simp [hid]
    · simp [mem_insertField hl.fragments_sorted, hid]

/-- A fragment under another key settles no account of a node. -/
theorem recordFragment (hl : Orderly aside l) (h : l.Keeps id a) {key : String} (hkey : id ≠ key)
    (outcome : Fragment) : (l.recordFragment key outcome).Keeps id a := by
  refine h.of_same Iff.rfl fun outcome' => ?_
  simp [Ledger.recordFragment, mem_insertField hl.fragments_sorted, hkey]

/-- A reset opens the account again. -/
theorem reset (h : l.Keeps id a) (ids : List String) :
    (l.reset ids).Keeps id (if id ∈ ids then .pending else a) := by
  by_cases hid : id ∈ ids
  · rw [if_pos hid]
    constructor <;> simp [Ledger.reset, hid]
  · rw [if_neg hid]
    refine h.of_same ?_ fun outcome => ?_ <;> simp [Ledger.reset, hid]

/-- A carried ledger keeps what has ended, and what was running is pending again. -/
theorem carryOver (hl : Orderly aside l) (hid : id ∉ aside) (h : l.Keeps id a) (total : Nat)
    (keep : List String) :
    (Ledger.carryOver total l keep).Keeps id (if id ∈ keep then a.carried else .pending) := by
  have hrunning : id ∉ (Ledger.carryOver total l keep).running := List.not_mem_nil
  -- nothing runs in the new ledger, and its fragments are those that were kept
  have hfragments : ∀ outcome, (id, outcome) ∈ (Ledger.carryOver total l keep).fragments ↔
      id ∈ keep ∧ a = .ended outcome := fun outcome => by
    rw [← h.ended_iff outcome]
    exact hl.mem_keptFragments.trans (and_congr_right fun _ => and_iff_right hid)
  by_cases hkeep : id ∈ keep
  · rw [if_pos hkeep]
    refine ⟨iff_of_false hrunning ?_, fun outcome => ?_⟩
    · cases a <;> simp [Account.carried]
    · rw [hfragments]
      cases a <;> simp [Account.carried, hkeep]
  · rw [if_neg hkeep]
    refine ⟨iff_of_false hrunning nofun, fun outcome => ?_⟩
    rw [hfragments]
    simp [hkeep]

/-- An operation does to the account of a node what it does to the ledger. -/
theorem next (hl : Orderly aside l) (hid : id ∉ aside) (h : l.Keeps id a) {op : Op}
    (hop : op.Apart aside) : (op.perform l).Keeps id (a.next id op) := by
  cases op with
  | markRunning other => exact h.markRunning hl hid other
  | markCompleted other value => exact h.enter hl other (.completed value)
  | markFailed other error => exact h.enter hl other (.failed error)
  | recordFragment key fragment =>
    exact h.recordFragment hl (fun hsame => hid (hsame ▸ hop.2 key rfl)) fragment
  | reset ids => exact h.reset ids
  | carryOver total keep => exact h.carryOver hl hid total keep
  | log line => exact h.of_same Iff.rfl fun _ => Iff.rfl

end Keeps

end

-- ---------------------------------------------------------------------------
-- Any operations.
-- ---------------------------------------------------------------------------

section
variable {aside : Set String} {ops : List Op} {id : String}

/-- The account that is carried along the operations is the one their ledger keeps. -/
theorem Keeps.foldl {l : Ledger} {a : Account} (hl : Orderly aside l) (hid : id ∉ aside)
    (h : l.Keeps id a) (hops : ∀ op ∈ ops, op.Apart aside) :
    (ops.foldl Op.perform l).Keeps id (ops.foldl (Account.next id) a) := by
  induction ops generalizing l a with
  | nil => exact h
  | cons op ops ih =>
    obtain ⟨hop, hops⟩ := List.forall_mem_cons.mp hops
    exact ih (Op.orderly hl hop) (h.next hl hid hop) hops

end

-- ---------------------------------------------------------------------------
-- What is read off a ledger.
-- ---------------------------------------------------------------------------

/-- What is carried over of a ledger for the nodes in `keep`: the log, and of these nodes the
sets and the outcomes of those that ended. -/
structure CarriedOver (l : Ledger) (keep : List String) (next : Ledger) : Prop where
  logs : next.logs = l.logs
  running : next.running = []
  completed_iff : ∀ id, id ∈ next.completed ↔ id ∈ keep ∧ id ∈ l.completed
  failed_iff : ∀ id, id ∈ next.failed ↔ id ∈ keep ∧ id ∈ l.failed
  outcome_iff : ∀ id outcome, (id, outcome) ∈ next.fragments ↔
    id ∈ keep ∧ (id ∈ l.completed ∨ id ∈ l.failed) ∧ (id, outcome) ∈ l.fragments

namespace Orderly

variable {aside : Set String} {l : Ledger} {id : String}

/-- No node is in two of the sets. -/
theorem disjoint (hl : Orderly aside l) : l.completed.Disjoint l.failed ∧
    l.completed.Disjoint l.running ∧ l.failed.Disjoint l.running :=
  ⟨fun _ => hl.not_mem_failed, fun _ => hl.not_mem_running_of_completed,
    fun _ => hl.not_mem_running_of_failed⟩

/-- In an orderly ledger the failed set is looked at as it is, since no completed node is in it. -/
theorem status_eq_failed_iff (hl : Orderly aside l) : l.status id = .failed ↔ id ∈ l.failed := by
  rw [Ledger.status_eq_failed_iff]
  exact and_iff_right_of_imp fun hf hc => hl.not_mem_failed hc hf

/-- Exactly the completed nodes have an output. -/
theorem isSome_value?_iff (hl : Orderly aside l) :
    (l.value? id).isSome = true ↔ l.status id = .completed := by
  refine ⟨fun h => status_eq_completed_iff.mpr ?_, hl.valued id⟩
  by_contra hc
  rw [value?, if_neg hc] at h
  cases h

/-- Every failed node has an error. -/
theorem exists_error (hl : Orderly aside l) (h : id ∈ l.failed) :
    ∃ error, field? id l.fragments = some (.failed error) := by
  obtain ⟨-, error, herror⟩ := hl.failed_iff.mp h
  exact ⟨error, (field?_eq_some_iff hl.fragments_sorted).mpr herror⟩

/-- The failures are those of the failed nodes, in their order and with their errors. -/
theorem failures_eq (hl : Orderly aside l) : l.failures.map Prod.fst = l.failed ∧
    ∀ f ∈ l.failures, (f.1, .failed f.2) ∈ l.fragments := by
  unfold failures
  constructor
  · -- every failed node has an error to list, so none of them drops out
    rw [List.map_filterMap]
    conv_rhs => rw [← List.filterMap_some (l := l.failed)]
    refine List.filterMap_congr fun id hid => ?_
    obtain ⟨error, herror⟩ := hl.exists_error hid
    rw [herror]
    rfl
  · intro f hf
    obtain ⟨id, hid, hf⟩ := List.mem_filterMap.mp hf
    obtain ⟨error, herror⟩ := hl.exists_error hid
    rw [herror] at hf
    obtain rfl := Option.some.inj hf
    exact (field?_eq_some_iff hl.fragments_sorted).mp herror

/-- An outcome is that of a node that ended, or it belongs to no node. -/
theorem ended_iff (hl : Orderly aside l) {outcome : Fragment} (h : (id, outcome) ∈ l.fragments) :
    id ∈ l.completed ∨ id ∈ l.failed ↔ id ∉ aside := by
  constructor
  · rintro (hc | hf)
    · exact (hl.completed_iff.mp hc).1
    · exact (hl.failed_iff.mp hf).1
  · intro hid
    by_contra hopen
    rw [not_or] at hopen
    exact hl.fragment_absent hid hopen.1 hopen.2 outcome h

/-- What a new ledger holds is what was to be kept of the old one. -/
theorem carriedOver (hl : Orderly aside l) (total : Nat) (keep : List String) :
    CarriedOver l keep (Ledger.carryOver total l keep) := by
  have hnext := hl.carryOver total keep
  have hmem : ∀ {id : String} {f : Fragment}, (id, f) ∈ (Ledger.carryOver total l keep).fragments ↔
      id ∈ keep ∧ id ∉ aside ∧ (id, f) ∈ l.fragments := hl.mem_keptFragments
  refine ⟨rfl, rfl, fun id => ?_, fun id => ?_, fun id outcome => ?_⟩
  · rw [hnext.completed_iff, hl.completed_iff]
    simp only [hmem, exists_and_left]
    rw [and_left_comm, and_self_left]
  · rw [hnext.failed_iff, hl.failed_iff]
    simp only [hmem, exists_and_left]
    rw [and_left_comm, and_self_left]
  · rw [hmem]
    refine and_congr_right fun _ => and_congr_left fun h => ?_
    exact (hl.ended_iff h).symm

end Orderly

-- ---------------------------------------------------------------------------
-- What a ledger says after any operations.
-- ---------------------------------------------------------------------------

/-- **A ledger keeps its books.** After any operations in any order, if no key of an outcome that
belongs to no node is taken for a node: no node is in two sets; exactly the pending nodes can be
started; exactly the completed ones have an output; the failures are those of the failed nodes,
each once and in the order of ids; a node that has not ended has no outcome; how a node stands
follows from the operations alone; and what is carried over is what the nodes to be kept ended
with, and the log. -/
theorem bookkeeping {total : Nat} {ops : List Op} {l : Ledger}
    (hapart : ∀ key ∈ keys ops, key ∉ nodes ops) (hl : after total ops = l) :
    (l.completed.Disjoint l.failed ∧ l.completed.Disjoint l.running ∧
      l.failed.Disjoint l.running) ∧
    (∀ id, (l.markRunning id).isSome = true ↔ l.status id = .pending) ∧
    (∀ id, l.status id = .completed ↔ (l.value? id).isSome = true) ∧
    (l.failures.map Prod.fst = l.failed ∧ l.failed.Pairwise (· < ·) ∧
      (∀ id, id ∈ l.failed ↔ l.status id = .failed) ∧
      ∀ f ∈ l.failures, (f.1, .failed f.2) ∈ l.fragments) ∧
    (∀ id, id ∉ keys ops → l.status id = .pending ∨ l.status id = .running →
      ∀ outcome, (id, outcome) ∉ l.fragments) ∧
    (∀ id, id ∉ keys ops → l.status id = (Account.after id ops).status ∧
      field? id l.fragments = (Account.after id ops).outcome?) ∧
    ∀ size keep, CarriedOver l keep (carryOver size l keep) := by
  subst hl
  have hops := apart_of_keys hapart
  have hl : Orderly {key | key ∈ keys ops} (after total ops) := orderly_foldl (.start total) hops
  refine ⟨hl.disjoint, fun _ => isSome_markRunning_iff, fun _ => hl.isSome_value?_iff.symm,
    ⟨hl.failures_eq.1, hl.failed_sorted, fun _ => hl.status_eq_failed_iff.symm, hl.failures_eq.2⟩,
    fun id hid hopen => ?_, fun id hid => ?_, hl.carriedOver⟩
  · -- a node that has not ended is in neither set, so it has no fragment
    refine hl.fragment_absent hid (fun hc => ?_) fun hf => ?_
    · rw [status_eq_completed_iff.mpr hc] at hopen
      exact hopen.elim nofun nofun
    · rw [hl.status_eq_failed_iff.mpr hf] at hopen
      exact hopen.elim nofun nofun
  · have hkeeps := (Keeps.start total id).foldl (.start total) hid hops
    exact ⟨hkeeps.status_eq hl hid, hkeeps.field?_eq hl⟩

/-- A node that ends twice each way, one that starts again after it was reset while it ran, an
answer that belongs to no node, and a ledger carried over for more nodes than have ended. -/
def restless : List Op :=
  [.markRunning "a", .markFailed "a" "lost", .markCompleted "a" (.str "found"),
    .markCompleted "b" (.str "early"), .markFailed "b" "late",
    .markRunning "c", .reset ["c"], .markRunning "c",
    .recordFragment "answer" (.completed (.str "42")), .log "once",
    .carryOver 4 ["a", "b", "c", "answer"], .markRunning "d"]

theorem bookkeeping_restless :
    (∀ key ∈ keys restless, key ∉ nodes restless) ∧
    ((after 3 restless).value? "a").isSome = true ∧
    (after 3 restless).failures.map Prod.fst = ["b"] ∧
    (after 3 restless).status "c" = .pending ∧ ((after 3 restless).markRunning "c").isSome = true ∧
    CarriedOver (after 3 restless) ["b", "d"] (carryOver 2 (after 3 restless) ["b", "d"]) := by
  have hapart : ∀ key ∈ keys restless, key ∉ nodes restless := by decide
  obtain ⟨-, hstarts, houtput, hfailures, -, haccount, hcarried⟩ :=
    bookkeeping hapart (rfl : after 3 restless = after 3 restless)
  have hpending : (after 3 restless).status "c" = .pending := (haccount "c" (by decide)).1
  exact ⟨hapart, (houtput "a").mp rfl, hfailures.1, hpending, (hstarts "c").mpr hpending,
    hcarried 2 ["b", "d"]⟩

end Ledger

end PlanRunner
