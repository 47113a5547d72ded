import Mathlib.Data.List.Sort
import Mathlib.Data.Set.Basic
import Mathlib.Data.String.Basic
import Mathlib.Tactic.SplitIfs
import PlanRunner.Run.Ledger

/-!
# PlanRunner — bookkeeping of a ledger

The four collections of a ledger tell one story: a node has an outcome if and only
if it is in the set of the completed or of the failed nodes, and a running node has
none. `Ledger.Orderly` says so, and every operation keeps it as long as node ids
stay apart from the keys of outcomes that belong to no node.

* `Ledger.Orderly.markRunning`, `enter`, `reset`, `carryOver`, `recordFragment`,
  `log` — what each operation keeps;
* `Ledger.Orderly.status_of_mem` — the status of a node can be read off its outcome;
* `Ledger.Orderly.agrees` — the outcomes and the running nodes determine the sets;
* `Ledger.status_markRunning`, `Ledger.status_enter` — the start of a node and its outcome
  change the status of that node and of no other.
-/

namespace PlanRunner

-- ---------------------------------------------------------------------------
-- Sorted lists of ids and of fields
-- ---------------------------------------------------------------------------

namespace IdSet

/-- A list of ids in increasing order, which therefore repeats none. -/
def Sorted (s : IdSet) : Prop := List.Pairwise (· < ·) s

theorem Sorted.nodup {s : IdSet} (hs : Sorted s) : s.Nodup :=
  List.Pairwise.imp (fun h => ne_of_lt h) hs

/-- Adding an id keeps the set sorted, wherever its place is. -/
theorem Sorted.insert {s : IdSet} (hs : Sorted s) (id : String) : Sorted (IdSet.insert id s) := by
  -- Induction on the list `insert` walks: the id goes in front of `x`, is `x`, or goes further
  -- back.
  induction s with
  | nil => exact List.pairwise_singleton _ _
  | cons x xs ih =>
    have hx := List.pairwise_cons.mp hs
    unfold IdSet.insert
    split
    · rename_i hlt
      refine List.pairwise_cons.mpr ⟨?_, hs⟩
      intro y hy
      rcases List.mem_cons.mp hy with rfl | hy
      · exact hlt
      · exact lt_trans hlt (hx.1 y hy)
    · rename_i hge
      split
      · exact hs
      · rename_i hne
        refine List.pairwise_cons.mpr ⟨?_, ih hx.2⟩
        intro y hy
        rcases mem_insert.mp hy with rfl | hy
        · exact lt_of_le_of_ne (not_lt.mp hge) (Ne.symm hne)
        · exact hx.1 y hy

theorem Sorted.filter {s : IdSet} (hs : Sorted s) (p : String → Bool) : Sorted (s.filter p) :=
  List.Pairwise.filter p hs

theorem Sorted.erase {s : IdSet} (hs : Sorted s) (id : String) : Sorted (IdSet.erase id s) :=
  hs.filter _

/-- Sorted sets with the same members are equal. -/
theorem Sorted.ext {s t : IdSet} (hs : Sorted s) (ht : Sorted t) (h : ∀ id, id ∈ s ↔ id ∈ t) :
    s = t :=
  List.Pairwise.eq_of_mem_iff hs ht h

/-- An id that is not in the set is added once, beside all that is there. -/
theorem insert_perm {id : String} {s : IdSet} (h : id ∉ s) : (IdSet.insert id s).Perm (id :: s) := by
  induction s with
  | nil => exact .refl _
  | cons x xs ih =>
    rw [List.mem_cons, not_or] at h
    unfold IdSet.insert
    split
    · exact .refl _
    · rw [if_neg h.1]
      exact ((ih h.2).cons x).trans (.swap id x xs)

/-- Taking an id away loses that id and nothing else. -/
theorem erase_perm {id : String} {s : IdSet} (hs : s.Nodup) (h : id ∈ s) :
    s.Perm (id :: IdSet.erase id s) := by
  have heq : IdSet.erase id s = List.erase s id := (hs.erase_eq_filter id).symm
  rw [heq]
  exact List.perm_cons_erase h

end IdSet

section Fields

variable {α : Type} {key : String} {value : α} {fields : List (String × α)}

/-- Fields in increasing order of their names. -/
def SortedFields (fields : List (String × α)) : Prop := IdSet.Sorted (fields.map Prod.fst)

/-- Setting a field adds its key to the keys and takes none away. -/
theorem mem_map_fst_insertField {name : String} :
    name ∈ (insertField key value fields).map Prod.fst ↔ name = key ∨ name ∈ fields.map Prod.fst := by
  induction fields with
  | nil => simp [insertField]
  | cons f rest ih =>
    obtain ⟨k, v⟩ := f
    unfold insertField
    split
    · simp
    · split
      · rename_i heq
        subst heq
        simp
      · simp only [List.map_cons, List.mem_cons, ih]
        exact or_left_comm

/-- Setting a field keeps the keys strictly increasing. -/
theorem SortedFields.insertField (hs : SortedFields fields) (key : String) (value : α) :
    SortedFields (PlanRunner.insertField key value fields) := by
  -- As for sets of ids: the key is new before `k`, is `k` itself, or belongs further back.
  induction fields with
  | nil => exact List.pairwise_singleton _ _
  | cons f rest ih =>
    obtain ⟨k, v⟩ := f
    have hk := List.pairwise_cons.mp hs
    unfold PlanRunner.insertField
    split
    · rename_i hlt
      refine List.pairwise_cons.mpr ⟨?_, hs⟩
      intro y hy
      rcases List.mem_cons.mp hy with rfl | hy
      · exact hlt
      · exact lt_trans hlt (hk.1 y hy)
    · rename_i hge
      split
      · rename_i heq
        subst heq
        exact hs
      · rename_i hne
        refine List.pairwise_cons.mpr ⟨?_, ih hk.2⟩
        intro y hy
        rcases mem_map_fst_insertField.mp hy with rfl | hy
        · exact lt_of_le_of_ne (not_lt.mp hge) (Ne.symm hne)
        · exact hk.1 y hy

theorem SortedFields.filter (hs : SortedFields fields) (p : String × α → Bool) :
    SortedFields (fields.filter p) :=
  hs.sublist (List.filter_sublist.map _)

/-- A key has one value: the keys of sorted fields have no duplicates. -/
theorem SortedFields.eq_of_mem (hs : SortedFields fields) {v w : α} (hv : (key, v) ∈ fields)
    (hw : (key, w) ∈ fields) : v = w := by
  have := List.inj_on_of_nodup_map hs.nodup hv hw rfl
  exact congrArg Prod.snd this

/-- Reading a field of sorted fields finds exactly the entry that is there. -/
theorem field?_eq_some_iff (hs : SortedFields fields) {v : α} :
    field? key fields = some v ↔ (key, v) ∈ fields := by
  induction fields with
  | nil => simp [field?]
  | cons f rest ih =>
    obtain ⟨k, w⟩ := f
    have hk := List.pairwise_cons.mp hs
    unfold field?
    split
    · rename_i heq
      subst heq
      -- the head is the entry, and no later entry can have the same key
      have hrest : (k, v) ∉ rest := fun h =>
        lt_irrefl k (hk.1 k (List.mem_map_of_mem h))
      simp only [Option.some.injEq, List.mem_cons, Prod.mk.injEq, true_and, hrest, or_false]
      exact eq_comm
    · rename_i hne
      rw [ih hk.2, List.mem_cons, Prod.mk.injEq]
      simp [Ne.symm hne]

/-- Setting a field replaces the entry of its key and leaves every other entry. -/
theorem mem_insertField (hs : SortedFields fields) {name : String} {v : α} :
    (name, v) ∈ insertField key value fields ↔
      name = key ∧ v = value ∨ name ≠ key ∧ (name, v) ∈ fields := by
  rw [← field?_eq_some_iff (hs.insertField key value)]
  by_cases h : name = key
  · subst h
    rw [field?_insertField_self, Option.some.injEq]
    simp [eq_comm]
  · rw [field?_insertField_ne _ _ h, field?_eq_some_iff hs]
    simp [h]

/-- Sorted fields with the same members are equal. -/
theorem SortedFields.ext {other : List (String × α)} (hs : SortedFields fields)
    (ho : SortedFields other) (h : ∀ f, f ∈ fields ↔ f ∈ other) : fields = other := by
  have hf : List.Pairwise (fun f g => f.1 < g.1) fields := List.pairwise_map.mp hs
  have hg : List.Pairwise (fun f g => f.1 < g.1) other := List.pairwise_map.mp ho
  refine List.Perm.eq_of_pairwise (fun f g _ _ hfg hgf => ?_) hf hg
    ((List.perm_ext_iff_of_nodup (List.Nodup.of_map _ hs.nodup) (List.Nodup.of_map _ ho.nodup)).mpr h)
  exact absurd (lt_trans hfg hgf) (lt_irrefl _)

end Fields

-- ---------------------------------------------------------------------------
-- Outcomes and the sets of ids
-- ---------------------------------------------------------------------------

namespace Ledger

/-- Records an outcome of a node. -/
def enter (l : Ledger) (id : String) : Fragment → Ledger
  | .completed value => l.markCompleted id value
  | .failed error => l.markFailed id error

/-- A ledger in which the sets of ids agree with the outcomes. Outcomes under the keys
in `aside` belong to no node. -/
structure Orderly (aside : Set String) (l : Ledger) : Prop where
  completed_sorted : IdSet.Sorted l.completed
  failed_sorted : IdSet.Sorted l.failed
  running_sorted : IdSet.Sorted l.running
  fragments_sorted : SortedFields l.fragments
  completed_iff : ∀ {id}, id ∈ l.completed ↔ id ∉ aside ∧ ∃ value, (id, .completed value) ∈ l.fragments
  failed_iff : ∀ {id}, id ∈ l.failed ↔ id ∉ aside ∧ ∃ error, (id, .failed error) ∈ l.fragments
  running_fresh : ∀ {id}, id ∈ l.running → id ∉ aside ∧ ∀ fragment, (id, fragment) ∉ l.fragments

/-- Recording an outcome of a node moves that node alone in or out of the completed ones. -/
theorem mem_enter_completed {l : Ledger} {id other : String} {f : Fragment} :
    other ∈ (l.enter id f).completed ↔
      (∃ value, f = .completed value) ∧ other = id ∨ other ≠ id ∧ other ∈ l.completed := by
  cases f <;> by_cases h : other = id <;> simp [enter, markCompleted, markFailed, h]

/-- Recording an outcome of a node moves that node alone in or out of the failed ones. -/
theorem mem_enter_failed {l : Ledger} {id other : String} {f : Fragment} :
    other ∈ (l.enter id f).failed ↔
      (∃ error, f = .failed error) ∧ other = id ∨ other ≠ id ∧ other ∈ l.failed := by
  cases f <;> by_cases h : other = id <;> simp [enter, markCompleted, markFailed, h]

@[simp] theorem enter_running (l : Ledger) (id : String) (f : Fragment) :
    (l.enter id f).running = IdSet.erase id l.running := by
  cases f <;> rfl

@[simp] theorem enter_fragments (l : Ledger) (id : String) (f : Fragment) :
    (l.enter id f).fragments = insertField id f l.fragments := by
  cases f <;> rfl

@[simp] theorem enter_total (l : Ledger) (id : String) (f : Fragment) :
    (l.enter id f).total = l.total := by
  cases f <;> rfl

/-- Only a node without a set starts, and it joins the running ones. -/
theorem markRunning_eq_some_iff {l l' : Ledger} {id : String} :
    l.markRunning id = some l' ↔
      id ∉ l.completed ∧ id ∉ l.failed ∧ id ∉ l.running ∧
        l' = { l with running := IdSet.insert id l.running } := by
  unfold markRunning isPending
  rw [Option.ite_none_right_eq_some]
  simp only [Bool.not_eq_true', Bool.or_eq_false_iff, List.contains_eq_mem, decide_eq_false_iff_not,
    Option.some.injEq, and_assoc]
  rw [eq_comm (a := l')]

/-- The completed set is looked at first, so being in it is what the status says. -/
theorem status_eq_completed_iff {l : Ledger} {id : String} :
    l.status id = .completed ↔ id ∈ l.completed := by
  unfold status
  split_ifs <;> simp_all

/-- A node is failed when the failed set has it and the completed set does not. -/
theorem status_eq_failed_iff {l : Ledger} {id : String} :
    l.status id = .failed ↔ id ∉ l.completed ∧ id ∈ l.failed := by
  unfold status
  split_ifs <;> simp_all

theorem status_eq_running_iff {l : Ledger} {id : String} :
    l.status id = .running ↔ id ∉ l.completed ∧ id ∉ l.failed ∧ id ∈ l.running := by
  unfold status
  split_ifs <;> simp_all

/-- A node is pending when no set has it. -/
theorem status_eq_pending_iff {l : Ledger} {id : String} :
    l.status id = .pending ↔ id ∉ l.completed ∧ id ∉ l.failed ∧ id ∉ l.running := by
  unfold status
  split_ifs <;> simp_all

/-- A node starts exactly if it is pending. -/
theorem isSome_markRunning_iff {l : Ledger} {id : String} :
    (l.markRunning id).isSome = true ↔ l.status id = .pending := by
  simp only [Option.isSome_iff_exists, status_eq_pending_iff, markRunning_eq_some_iff, exists_and_left,
    exists_eq, and_true]

namespace Orderly

variable {aside : Set String} {l : Ledger}

theorem start (total : Nat) : Orderly aside (Ledger.start total) := by
  constructor <;> simp [Ledger.start, IdSet.Sorted, SortedFields]

theorem log (hl : Orderly aside l) (line : String) : Orderly aside (l.log line) :=
  ⟨hl.completed_sorted, hl.failed_sorted, hl.running_sorted, hl.fragments_sorted,
    hl.completed_iff, hl.failed_iff, hl.running_fresh⟩

/-- A node has at most one outcome. -/
theorem fragment_unique (hl : Orderly aside l) {id : String} {f g : Fragment}
    (hf : (id, f) ∈ l.fragments) (hg : (id, g) ∈ l.fragments) : f = g :=
  hl.fragments_sorted.eq_of_mem hf hg

theorem not_mem_failed (hl : Orderly aside l) {id : String} (h : id ∈ l.completed) :
    id ∉ l.failed := by
  intro hfailed
  obtain ⟨-, value, hv⟩ := hl.completed_iff.mp h
  obtain ⟨-, error, he⟩ := hl.failed_iff.mp hfailed
  exact Fragment.noConfusion (hl.fragment_unique hv he)

theorem not_mem_running_of_completed (hl : Orderly aside l) {id : String} (h : id ∈ l.completed) :
    id ∉ l.running := by
  intro hrunning
  obtain ⟨-, value, hv⟩ := hl.completed_iff.mp h
  exact (hl.running_fresh hrunning).2 _ hv

theorem not_mem_running_of_failed (hl : Orderly aside l) {id : String} (h : id ∈ l.failed) :
    id ∉ l.running := by
  intro hrunning
  obtain ⟨-, error, he⟩ := hl.failed_iff.mp h
  exact (hl.running_fresh hrunning).2 _ he

/-- A node that has not ended has no outcome. -/
theorem fragment_absent (hl : Orderly aside l) {id : String} (ha : id ∉ aside)
    (hc : id ∉ l.completed) (hf : id ∉ l.failed) (f : Fragment) : (id, f) ∉ l.fragments := by
  intro h
  cases f with
  | completed value => exact hc (hl.completed_iff.mpr ⟨ha, value, h⟩)
  | failed error => exact hf (hl.failed_iff.mpr ⟨ha, error, h⟩)

/-- A node that is marked running has no outcome yet, which is what the book asks of it. -/
theorem markRunning {l' : Ledger} {id : String} (hl : Orderly aside l) (ha : id ∉ aside)
    (h : l.markRunning id = some l') : Orderly aside l' := by
  -- a pending node has no outcome, so it may join the running ones
  obtain ⟨hc, hf, -, rfl⟩ := markRunning_eq_some_iff.mp h
  refine ⟨hl.completed_sorted, hl.failed_sorted, hl.running_sorted.insert id,
    hl.fragments_sorted, hl.completed_iff, hl.failed_iff, ?_⟩
  intro other hother
  rcases IdSet.mem_insert.mp hother with rfl | hother
  · exact ⟨ha, hl.fragment_absent ha hc hf⟩
  · exact hl.running_fresh hother

/-- An outcome of a node keeps the book: the sets gain or lose the node with its fragment. -/
theorem enter (hl : Orderly aside l) {id : String} (ha : id ∉ aside) (f : Fragment) :
    Orderly aside (l.enter id f) := by
  refine ⟨?_, ?_, ?_, ?_, ?_, ?_, ?_⟩
  · cases f
    · exact hl.completed_sorted.insert id
    · exact hl.completed_sorted.erase id
  · cases f
    · exact hl.failed_sorted.erase id
    · exact hl.failed_sorted.insert id
  · rw [enter_running]
    exact hl.running_sorted.erase id
  · rw [enter_fragments]
    exact hl.fragments_sorted.insertField id f
  · intro other
    -- the node itself is decided by the new fragment, every other node by the old book
    simp only [mem_enter_completed, enter_fragments, mem_insertField hl.fragments_sorted]
    by_cases hid : other = id
    · subst hid
      simp [ha, eq_comm]
    · simp [hid, hl.completed_iff]
  · intro other
    simp only [mem_enter_failed, enter_fragments, mem_insertField hl.fragments_sorted]
    by_cases hid : other = id
    · subst hid
      simp [ha, eq_comm]
    · simp [hid, hl.failed_iff]
  · intro other hother
    rw [enter_running, IdSet.mem_erase] at hother
    obtain ⟨haside, hfresh⟩ := hl.running_fresh hother.1
    refine ⟨haside, fun g hg => ?_⟩
    rw [enter_fragments, mem_insertField hl.fragments_sorted] at hg
    rcases hg with hg | hg
    · exact hother.2 hg.1
    · exact hfresh g hg.2

/-- A fragment under a key of its own does not touch what the sets say of the nodes. -/
theorem recordFragment (hl : Orderly aside l) {key : String} (ha : key ∈ aside) (f : Fragment) :
    Orderly aside (l.recordFragment key f) := by
  -- the new outcome is aside, so nothing changes for the ids of nodes
  have hmem : ∀ {id : String} {g : Fragment}, id ∉ aside →
      ((id, g) ∈ (l.recordFragment key f).fragments ↔ (id, g) ∈ l.fragments) := by
    intro id g hid
    have hne : id ≠ key := fun h => hid (h ▸ ha)
    simp only [Ledger.recordFragment, mem_insertField hl.fragments_sorted]
    simp [hne]
  refine ⟨hl.completed_sorted, hl.failed_sorted, hl.running_sorted,
    hl.fragments_sorted.insertField key f, ?_, ?_, ?_⟩
  · intro id
    refine hl.completed_iff.trans (and_congr_right fun hid => ?_)
    simp only [hmem hid]
  · intro id
    refine hl.failed_iff.trans (and_congr_right fun hid => ?_)
    simp only [hmem hid]
  · intro id hid
    obtain ⟨haside, hfresh⟩ := hl.running_fresh hid
    exact ⟨haside, fun g hg => hfresh g ((hmem haside).mp hg)⟩

/-- Resetting takes the ids out of the sets and out of the fragments alike. -/
theorem reset (hl : Orderly aside l) (ids : List String) : Orderly aside (l.reset ids) := by
  refine ⟨hl.completed_sorted.filter _, hl.failed_sorted.filter _, hl.running_sorted.filter _,
    hl.fragments_sorted.filter _, ?_, ?_, ?_⟩
  · intro id
    by_cases hid : id ∈ ids <;> simp [Ledger.reset, hid, hl.completed_iff]
  · intro id
    by_cases hid : id ∈ ids <;> simp [Ledger.reset, hid, hl.failed_iff]
  · intro id hid
    obtain ⟨haside, hfresh⟩ := hl.running_fresh (List.mem_filter.mp hid).1
    exact ⟨haside, fun g hg => hfresh g (List.mem_filter.mp hg).1⟩

/-- What is kept of an orderly ledger are the outcomes of the chosen nodes. -/
theorem mem_keptFragments (hl : Orderly aside l) {keep : List String} {id : String} {f : Fragment} :
    (id, f) ∈ l.keptFragments keep ↔ id ∈ keep ∧ id ∉ aside ∧ (id, f) ∈ l.fragments := by
  -- in an orderly ledger only outcomes that are aside belong to no node
  have hsettled : (id, f) ∈ l.fragments → (l.isSettled (id, f) = true ↔ id ∉ aside) := by
    intro h
    cases f with
    | completed value =>
      rw [isSettled, List.contains_eq_mem, decide_eq_true_eq, hl.completed_iff]
      exact and_iff_left ⟨value, h⟩
    | failed error =>
      rw [isSettled, List.contains_eq_mem, decide_eq_true_eq, hl.failed_iff]
      exact and_iff_left ⟨error, h⟩
  simp only [keptFragments, List.mem_filter, Bool.and_eq_true, List.contains_eq_mem,
    decide_eq_true_eq]
  constructor
  · rintro ⟨hmem, hkeep, hs⟩
    exact ⟨hkeep, (hsettled hmem).mp hs, hmem⟩
  · rintro ⟨hkeep, ha, hmem⟩
    exact ⟨hmem, hkeep, (hsettled hmem).mpr ha⟩

/-- The book of the next attempt is in order: its sets are read off the fragments it keeps. -/
theorem carryOver (hl : Orderly aside l) (total : Nat) (keep : List String) :
    Orderly aside (Ledger.carryOver total l keep) := by
  -- Nothing runs in the new book, so the two sets and the fragments are all there is to compare.
  have hkept : SortedFields (l.keptFragments keep) := hl.fragments_sorted.filter _
  refine ⟨hkept.filter _, hkept.filter _, List.Pairwise.nil, hkept, ?_, ?_, ?_⟩
  · intro id
    simp only [Ledger.carryOver, List.mem_map, List.mem_filter, Prod.exists, exists_and_right,
      exists_eq_right]
    constructor
    · rintro ⟨f, hf, hc⟩
      cases f with
      | completed value => exact ⟨(hl.mem_keptFragments.mp hf).2.1, value, hf⟩
      | failed error => simp at hc
    · rintro ⟨-, value, hf⟩
      exact ⟨.completed value, hf, rfl⟩
  · intro id
    simp only [Ledger.carryOver, List.mem_map, List.mem_filter, Prod.exists, exists_and_right,
      exists_eq_right]
    constructor
    · rintro ⟨f, hf, hc⟩
      cases f with
      | completed value => simp at hc
      | failed error => exact ⟨(hl.mem_keptFragments.mp hf).2.1, error, hf⟩
    · rintro ⟨-, error, hf⟩
      exact ⟨.failed error, hf, rfl⟩
  · intro id hid
    exact absurd hid List.not_mem_nil

end Orderly

end Ledger

-- ---------------------------------------------------------------------------
-- What the outcomes determine
-- ---------------------------------------------------------------------------

/-- Where a node with this outcome stands. -/
def Fragment.status : Fragment → Status
  | .completed _ => .completed
  | .failed _ => .failed

namespace Ledger

/-- Two ledgers that differ in the log at most. -/
structure Agrees (l m : Ledger) : Prop where
  total : l.total = m.total
  completed : l.completed = m.completed
  failed : l.failed = m.failed
  running : l.running = m.running
  fragments : l.fragments = m.fragments

namespace Orderly

variable {aside : Set String} {l m : Ledger}

/-- A node with an outcome stands where its outcome says. -/
theorem status_of_mem (hl : Orderly aside l) {id : String} {f : Fragment} (ha : id ∉ aside)
    (h : (id, f) ∈ l.fragments) : l.status id = f.status := by
  unfold status
  cases f with
  | completed value =>
    rw [if_pos (hl.completed_iff.mpr ⟨ha, value, h⟩)]
    rfl
  | failed error =>
    have hf : id ∈ l.failed := hl.failed_iff.mpr ⟨ha, error, h⟩
    have hc : id ∉ l.completed := fun hc => hl.not_mem_failed hc hf
    rw [if_neg hc, if_pos hf]
    rfl

/-- A node has a value exactly when its fragment is a completed one. -/
theorem value?_eq_some_iff (hl : Orderly aside l) {id : String} {value : Value} (ha : id ∉ aside) :
    l.value? id = some value ↔ (id, .completed value) ∈ l.fragments := by
  unfold value?
  constructor
  · intro h
    split at h
    · split at h
      · rename_i v hv
        rw [field?_eq_some_iff hl.fragments_sorted] at hv
        rwa [Option.some.inj h] at hv
      · exact absurd h (by simp)
    · exact absurd h (by simp)
  · intro h
    rw [if_pos (hl.completed_iff.mpr ⟨ha, value, h⟩),
      (field?_eq_some_iff hl.fragments_sorted).mpr h]

/-- A node that neither runs nor has an outcome is pending. -/
theorem status_eq_pending (hl : Orderly aside l) {id : String}
    (h : ∀ f, (id, f) ∉ l.fragments) (hr : id ∉ l.running) : l.status id = .pending := by
  refine status_eq_pending_iff.mpr ⟨fun hc => ?_, fun hf => ?_, hr⟩
  · obtain ⟨-, value, hv⟩ := hl.completed_iff.mp hc
    exact h _ hv
  · obtain ⟨-, error, he⟩ := hl.failed_iff.mp hf
    exact h _ he

/-- The outcomes and the running nodes determine the sets of a ledger. -/
theorem agrees (hl : Orderly aside l) (hm : Orderly aside m) (total : l.total = m.total)
    (running : ∀ id, id ∈ l.running ↔ id ∈ m.running)
    (fragments : ∀ f, f ∈ l.fragments ↔ f ∈ m.fragments) : l.Agrees m where
  total := total
  completed := hl.completed_sorted.ext hm.completed_sorted fun id => by
    simp only [hl.completed_iff, hm.completed_iff, fragments]
  failed := hl.failed_sorted.ext hm.failed_sorted fun id => by
    simp only [hl.failed_iff, hm.failed_iff, fragments]
  running := hl.running_sorted.ext hm.running_sorted running
  fragments := hl.fragments_sorted.ext hm.fragments_sorted fragments

end Orderly

namespace Agrees

variable {l m : Ledger}

theorem symm (h : l.Agrees m) : m.Agrees l :=
  ⟨h.total.symm, h.completed.symm, h.failed.symm, h.running.symm, h.fragments.symm⟩

theorem trans {k : Ledger} (h : l.Agrees m) (hk : m.Agrees k) : l.Agrees k :=
  ⟨h.total.trans hk.total, h.completed.trans hk.completed, h.failed.trans hk.failed,
    h.running.trans hk.running, h.fragments.trans hk.fragments⟩

theorem status (h : l.Agrees m) : l.status = m.status := by
  funext id
  unfold Ledger.status
  rw [h.completed, h.failed, h.running]

theorem value? (h : l.Agrees m) : l.value? = m.value? := by
  funext id
  unfold Ledger.value?
  rw [h.completed, h.fragments]

theorem counts (h : l.Agrees m) : l.counts = m.counts := by
  unfold Ledger.counts
  rw [h.completed, h.failed, h.running]

/-- Orderliness is about the sets and the fragments alone, so it passes between books that agree. -/
theorem orderly {aside : Set String} (h : l.Agrees m) (hm : Orderly aside m) : Orderly aside l where
  completed_sorted := h.completed ▸ hm.completed_sorted
  failed_sorted := h.failed ▸ hm.failed_sorted
  running_sorted := h.running ▸ hm.running_sorted
  fragments_sorted := h.fragments ▸ hm.fragments_sorted
  completed_iff := by
    rw [h.completed, h.fragments]
    exact hm.completed_iff
  failed_iff := by
    rw [h.failed, h.fragments]
    exact hm.failed_iff
  running_fresh := by
    rw [h.running, h.fragments]
    exact hm.running_fresh

end Agrees

-- ---------------------------------------------------------------------------
-- How the statuses change
-- ---------------------------------------------------------------------------

/-- A node starts from `PENDING`, and marking it changes no other status. -/
theorem status_markRunning {l l' : Ledger} {id : String} (h : l.markRunning id = some l') :
    l.status id = .pending ∧ l'.status = Function.update l.status id .running := by
  obtain ⟨hc, hf, hr, rfl⟩ := markRunning_eq_some_iff.mp h
  refine ⟨status_eq_pending_iff.mpr ⟨hc, hf, hr⟩, ?_⟩
  funext other
  by_cases hother : other = id
  · subst hother
    rw [Function.update_self]
    exact status_eq_running_iff.mpr ⟨hc, hf, IdSet.mem_insert.mpr (.inl rfl)⟩
  · rw [Function.update_of_ne hother]
    simp [status, hother]

/-- An outcome sets the status of its node and of no other. -/
theorem status_enter (l : Ledger) (id : String) (f : Fragment) :
    (l.enter id f).status = Function.update l.status id f.status := by
  funext other
  by_cases hother : other = id
  · subst hother
    rw [Function.update_self]
    cases f <;> simp [status, enter, markCompleted, markFailed, Fragment.status]
  · rw [Function.update_of_ne hother]
    cases f <;> simp [status, enter, markCompleted, markFailed, hother]

/-- An outcome sets the value of its node, or clears it on a failure, and of no other. -/
theorem value?_enter (l : Ledger) (id other : String) (f : Fragment) :
    (l.enter id f).value? other =
      if other = id then (match f with | .completed value => some value | .failed _ => none)
      else l.value? other := by
  by_cases hother : other = id
  · subst hother
    cases f <;> simp [value?, enter, markCompleted, markFailed, field?_insertField_self]
  · cases f <;>
      simp [value?, enter, markCompleted, markFailed, hother, field?_insertField_ne _ _ hother]

/-- Every completed node has its output. -/
def Valued (l : Ledger) : Prop :=
  ∀ id, l.status id = .completed → (l.value? id).isSome = true

/-- A node that starts running had no value to lose, and has none to show. -/
theorem Valued.markRunning {l l' : Ledger} {id : String} (hl : l.Valued)
    (h : l.markRunning id = some l') : l'.Valued := by
  obtain ⟨-, -, -, rfl⟩ := markRunning_eq_some_iff.mp h
  intro other hother
  -- the running nodes are no part of what is asked
  have hmem := status_eq_completed_iff.mp hother
  exact hl other (status_eq_completed_iff.mpr hmem)

/-- An outcome carries the value its status asks for. -/
theorem Valued.enter {l : Ledger} (hl : l.Valued) (id : String) (f : Fragment) :
    (l.enter id f).Valued := by
  intro other hother
  rw [status_enter] at hother
  rw [value?_enter]
  by_cases h : other = id
  · subst h
    rw [Function.update_self] at hother
    rw [if_pos rfl]
    cases f with
    | completed value => rfl
    | failed error => exact absurd hother (by simp [Fragment.status])
  · rw [Function.update_of_ne h] at hother
    rw [if_neg h]
    exact hl other hother

theorem Orderly.valued {aside : Set String} {l : Ledger} (hl : Orderly aside l) : l.Valued := by
  intro id hid
  have hmem := status_eq_completed_iff.mp hid
  obtain ⟨-, value, hv⟩ := hl.completed_iff.mp hmem
  rw [value?, if_pos hmem, (field?_eq_some_iff hl.fragments_sorted).mpr hv]
  rfl

end Ledger

end PlanRunner
