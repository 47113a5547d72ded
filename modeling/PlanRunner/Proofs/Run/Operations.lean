import Mathlib.Data.List.Induction
import PlanRunner.Proofs.Run.Ledger

/-!
# PlanRunner — operations on a ledger

A ledger is changed by seven operations, and whatever is true of every ledger is true because
each of the seven keeps it. They are data here, a ledger is what a list of them leads to, and
what they keep is proved of one operation and then, by induction, of all lists.

One of the seven may contradict the others: an outcome that belongs to no node can be recorded
under any key, also under that of a node. What is kept therefore depends on how far these keys
stay apart from the nodes, and there are two answers.

* `Ledger.Op`, `Ledger.after` — operations on a ledger, and the ledger after some of them;
* `Ledger.Op.orderly`, `Ledger.orderly_after` — where the keys are never those of nodes, the sets
  and the outcomes tell one story;
* `Ledger.Op.backed`, `Ledger.backed_after` — under any keys, every node in a set has an outcome,
  and one that goes with the set unless another was recorded while the node was in it.
-/

namespace PlanRunner.Ledger

-- ---------------------------------------------------------------------------
-- Operations
-- ---------------------------------------------------------------------------

/-- An operation on a ledger. -/
inductive Op where
  | markRunning (id : String)
  | markCompleted (id : String) (value : Value)
  | markFailed (id error : String)
  | recordFragment (key : String) (fragment : Fragment)
  | reset (ids : List String)
  | carryOver (total : Nat) (keep : List String)
  | log (line : String)

namespace Op

/-- What an operation makes of a ledger. A node that cannot start is left alone. -/
def perform (l : Ledger) : Op → Ledger
  | .markRunning id => (l.markRunning id).getD l
  | .markCompleted id value => l.markCompleted id value
  | .markFailed id error => l.markFailed id error
  | .recordFragment key fragment => l.recordFragment key fragment
  | .reset ids => l.reset ids
  | .carryOver total keep => Ledger.carryOver total l keep
  | .log line => l.log line

/-- The node that an operation starts or ends. -/
def node? : Op → Option String
  | .markRunning id => some id
  | .markCompleted id _ => some id
  | .markFailed id _ => some id
  | _ => none

/-- The key of an outcome that belongs to no node. -/
def key? : Op → Option String
  | .recordFragment key _ => some key
  | _ => none

/-- An operation that starts or ends no node in `aside` and records other outcomes only there. -/
def Apart (aside : Set String) (op : Op) : Prop :=
  (∀ id ∈ op.node?, id ∉ aside) ∧ ∀ key ∈ op.key?, key ∈ aside

/-- Starting a node leaves the ledger alone, or it adds the node to the running ones, if it was
pending. -/
theorem perform_markRunning_cases (l : Ledger) (id : String) :
    (Op.markRunning id).perform l = l ∧ l.status id ≠ .pending ∨
      l.markRunning id = some ((Op.markRunning id).perform l) ∧ l.status id = .pending := by
  cases h : l.markRunning id with
  | none =>
    refine .inl ⟨by rw [perform, h, Option.getD_none], fun hpending => ?_⟩
    rw [← isSome_markRunning_iff, h] at hpending
    exact Bool.false_ne_true hpending
  | some l' =>
    refine .inr ⟨by rw [perform, h, Option.getD_some], ?_⟩
    rw [← isSome_markRunning_iff, h, Option.isSome_some]

end Op

/-- The nodes that some operations start or end. -/
def nodes (ops : List Op) : List String := ops.filterMap Op.node?

/-- The keys under which some operations record outcomes that belong to no node. -/
def keys (ops : List Op) : List String := ops.filterMap Op.key?

/-- A new ledger after some operations. -/
def after (total : Nat) (ops : List Op) : Ledger := ops.foldl Op.perform (.start total)

/-- The last of some operations is performed on what the others have led to. -/
theorem after_concat (total : Nat) (ops : List Op) (op : Op) :
    after total (ops ++ [op]) = op.perform (after total ops) := by
  rw [after, List.foldl_append]
  rfl

-- ---------------------------------------------------------------------------
-- Keys apart from nodes
-- ---------------------------------------------------------------------------

section
variable {aside : Set String} {l : Ledger} {ops : List Op}

/-- Every operation keeps the sets in line with the outcomes, as long as nodes and the keys of
other outcomes stay apart. -/
theorem Op.orderly (hl : Orderly aside l) {op : Op} (hop : op.Apart aside) :
    Orderly aside (op.perform l) := by
  obtain ⟨hnode, hkey⟩ := hop
  cases op with
  | markRunning id =>
    obtain ⟨hsame, -⟩ | ⟨hmark, -⟩ := perform_markRunning_cases l id
    · rw [hsame]
      exact hl
    · exact hl.markRunning (hnode id rfl) hmark
  | markCompleted id value => exact hl.enter (hnode id rfl) (.completed value)
  | markFailed id error => exact hl.enter (hnode id rfl) (.failed error)
  | recordFragment key fragment => exact hl.recordFragment (hkey key rfl) fragment
  | reset ids => exact hl.reset ids
  | carryOver total keep => exact hl.carryOver total keep
  | log line => exact hl.log line

/-- What one operation keeps, any operations keep, from wherever they start. -/
theorem orderly_foldl (hl : Orderly aside l) (hops : ∀ op ∈ ops, op.Apart aside) :
    Orderly aside (ops.foldl Op.perform l) := by
  induction ops generalizing l with
  | nil => exact hl
  | cons op ops ih =>
    obtain ⟨hop, hops⟩ := List.forall_mem_cons.mp hops
    exact ih (Op.orderly hl hop) hops

/-- Operations that take no key of another outcome for a node are apart from these keys. -/
theorem apart_of_keys (hapart : ∀ key ∈ keys ops, key ∉ nodes ops) :
    ∀ op ∈ ops, op.Apart {key | key ∈ keys ops} := fun op hop =>
  ⟨fun id hid hkey => hapart id hkey (List.mem_filterMap.mpr ⟨op, hop, hid⟩),
    fun _ hkey => List.mem_filterMap.mpr ⟨op, hop, hkey⟩⟩

end

-- ---------------------------------------------------------------------------
-- Any keys
-- ---------------------------------------------------------------------------

/-- The nodes that ended in a way. -/
def ended (l : Ledger) : Status → IdSet
  | .completed => l.completed
  | .failed => l.failed
  | .running => []
  | .pending => []

/-- Every node that ended in a way has an outcome, and the outcome is fit for the node. -/
structure Backed (kind : Status) (Fit : String → Fragment → Prop) (l : Ledger) : Prop where
  sorted : SortedFields l.fragments
  outcome : ∀ id ∈ l.ended kind, ∃ f, (id, f) ∈ l.fragments ∧ Fit id f

/-- An outcome decides for its node whether it ended this way, and leaves the others. -/
theorem mem_ended_enter {l : Ledger} {kind : Status} {id other : String} {f : Fragment} :
    other ∈ (l.enter id f).ended kind ↔
      f.status = kind ∧ other = id ∨ other ≠ id ∧ other ∈ l.ended kind := by
  cases kind with
  | completed =>
    refine mem_enter_completed.trans (or_congr_left (and_congr_left fun _ => ?_))
    cases f <;> simp [Fragment.status]
  | failed =>
    refine mem_enter_failed.trans (or_congr_left (and_congr_left fun _ => ?_))
    cases f <;> simp [Fragment.status]
  | running => cases f <;> simp [ended, Fragment.status]
  | pending => cases f <;> simp [ended, Fragment.status]

section
variable {kind : Status} {Fit : String → Fragment → Prop} {l m : Ledger} {ops : List Op}

namespace Backed

/-- Nothing has ended in the empty ledger. -/
theorem start (total : Nat) : (Ledger.start total).Backed kind Fit :=
  ⟨List.Pairwise.nil, fun _ hid => by cases kind <;> exact absurd hid List.not_mem_nil⟩

/-- The sets of running nodes and the log are no part of it. -/
theorem of_same (h : l.Backed kind Fit) (hended : m.ended kind = l.ended kind)
    (hfragments : m.fragments = l.fragments) : m.Backed kind Fit where
  sorted := hfragments ▸ h.sorted
  outcome := by
    rw [hended, hfragments]
    exact h.outcome

/-- What backs the ended nodes is not in the log. -/
theorem of_agrees (h : l.Backed kind Fit) (hagrees : m.Agrees l) : m.Backed kind Fit := by
  refine h.of_same ?_ hagrees.fragments
  cases kind with
  | completed => exact hagrees.completed
  | failed => exact hagrees.failed
  | running => rfl
  | pending => rfl

/-- A line more leaves what has ended as it was. -/
theorem log (h : l.Backed kind Fit) (line : String) : (l.log line).Backed kind Fit := by
  refine h.of_same ?_ rfl
  cases kind <;> rfl

/-- A node that starts has not ended. -/
theorem markRunning (h : l.Backed kind Fit) {id : String} (hmark : l.markRunning id = some m) :
    m.Backed kind Fit := by
  obtain ⟨-, -, -, rfl⟩ := markRunning_eq_some_iff.mp hmark
  refine h.of_same ?_ rfl
  cases kind <;> rfl

/-- A node that ends leaves one of the sets and joins the other, with the outcome that goes with
it. -/
theorem enter (h : l.Backed kind Fit) {id : String} {f : Fragment} (hfit : f.status = kind → Fit id f) :
    (l.enter id f).Backed kind Fit where
  sorted := by
    rw [enter_fragments]
    exact h.sorted.insertField id f
  outcome := fun other hother => by
    simp only [enter_fragments, mem_insertField h.sorted]
    rcases mem_ended_enter.mp hother with ⟨hkind, rfl⟩ | ⟨hne, hother⟩
    · exact ⟨f, .inl ⟨rfl, rfl⟩, hfit hkind⟩
    · obtain ⟨g, hg, hgfit⟩ := h.outcome other hother
      exact ⟨g, .inr ⟨hne, hg⟩, hgfit⟩

/-- What is recorded for no node has to be fit for a node with its key, if there is one in the
set: it takes the place of that node's outcome. -/
theorem recordFragment (h : l.Backed kind Fit) {key : String} {f : Fragment}
    (hfit : key ∈ l.ended kind → Fit key f) : (l.recordFragment key f).Backed kind Fit where
  sorted := h.sorted.insertField key f
  outcome := fun id hid => by
    have hended : id ∈ l.ended kind := by cases kind <;> exact hid
    simp only [Ledger.recordFragment, mem_insertField h.sorted]
    by_cases hsame : id = key
    · subst hsame
      exact ⟨f, .inl ⟨rfl, rfl⟩, hfit hended⟩
    · obtain ⟨g, hg, hgfit⟩ := h.outcome id hended
      exact ⟨g, .inr ⟨hsame, hg⟩, hgfit⟩

/-- What is reset has no outcome any more. -/
theorem reset (h : l.Backed kind Fit) (ids : List String) : (l.reset ids).Backed kind Fit where
  sorted := h.sorted.filter _
  outcome := fun id hid => by
    have hmem : id ∈ (l.ended kind).filter fun id => !ids.contains id := by
      cases kind <;> exact hid
    obtain ⟨hended, hkept⟩ := List.mem_filter.mp hmem
    obtain ⟨f, hf, hfit⟩ := h.outcome id hended
    exact ⟨f, List.mem_filter.mpr ⟨hf, hkept⟩, hfit⟩

/-- What is kept of the outcomes belongs to nodes that ended the way it says. -/
theorem mem_ended_of_mem_kept {keep : List String} {id : String} {f : Fragment}
    (h : (id, f) ∈ l.keptFragments keep) : id ∈ l.ended f.status := by
  have hsettled : l.isSettled (id, f) = true :=
    (Bool.and_eq_true_iff.mp (List.mem_filter.mp h).2).2
  cases f <;> simpa [isSettled, Fragment.status, ended] using hsettled

/-- What is carried over was in the set before, and its outcome goes with the set. -/
theorem carryOver (h : l.Backed kind Fit) (total : Nat) (keep : List String) :
    (Ledger.carryOver total l keep).Backed kind Fit where
  sorted := h.sorted.filter _
  outcome := fun id hid => by
    have hkept : ∃ f, (id, f) ∈ l.keptFragments keep ∧ id ∈ l.ended kind := by
      cases kind with
      | completed =>
        obtain ⟨⟨id, f⟩, hf, rfl⟩ := List.mem_map.mp hid
        obtain ⟨hf, hdone⟩ := List.mem_filter.mp hf
        cases f with
        | completed value => exact ⟨_, hf, mem_ended_of_mem_kept hf⟩
        | failed error => exact absurd hdone Bool.false_ne_true
      | failed =>
        obtain ⟨⟨id, f⟩, hf, rfl⟩ := List.mem_map.mp hid
        obtain ⟨hf, hdone⟩ := List.mem_filter.mp hf
        cases f with
        | completed value => exact absurd hdone Bool.false_ne_true
        | failed error => exact ⟨_, hf, mem_ended_of_mem_kept hf⟩
      | running => exact absurd hid List.not_mem_nil
      | pending => exact absurd hid List.not_mem_nil
    obtain ⟨f, hf, hended⟩ := hkept
    -- a key has one outcome, so the outcome that is kept is the one that is fit
    obtain ⟨g, hg, hfit⟩ := h.outcome id hended
    obtain rfl := h.sorted.eq_of_mem hg (List.mem_filter.mp hf).1
    exact ⟨g, hf, hfit⟩

end Backed

/-- Every operation keeps it, if an outcome that belongs to no node is fit for a node in the set
whose key it has. -/
theorem Op.backed (hFit : ∀ id f, f.status = kind → Fit id f) (h : l.Backed kind Fit) {op : Op}
    (hop : ∀ key f, op = .recordFragment key f → key ∈ l.ended kind → Fit key f) :
    (op.perform l).Backed kind Fit := by
  cases op with
  | markRunning id =>
    obtain ⟨hsame, -⟩ | ⟨hmark, -⟩ := perform_markRunning_cases l id
    · rw [hsame]
      exact h
    · exact h.markRunning hmark
  | markCompleted id value => exact h.enter (f := .completed value) (hFit id _)
  | markFailed id error => exact h.enter (f := .failed error) (hFit id _)
  | recordFragment key f => exact h.recordFragment (hop key f rfl)
  | reset ids => exact h.reset ids
  | carryOver total keep => exact h.carryOver total keep
  | log line => exact h.log line

/-- It holds after any operations, if each outcome that belongs to no node was fit at the moment
it was recorded. -/
theorem backed_after (hFit : ∀ id f, f.status = kind → Fit id f) (total : Nat)
    (hops : ∀ before key f rest, ops = before ++ .recordFragment key f :: rest →
      key ∈ (after total before).ended kind → Fit key f) : (after total ops).Backed kind Fit := by
  induction ops using List.reverseRecOn with
  | nil => exact .start total
  | append_singleton ops op ih =>
    rw [after_concat]
    refine Op.backed hFit (ih fun before key f rest heq => ?_) fun key f hop => ?_
    · exact hops before key f (rest ++ [op]) (by rw [heq, List.append_assoc, List.cons_append])
    · exact hops ops key f [] (by rw [hop])

end

end PlanRunner.Ledger
