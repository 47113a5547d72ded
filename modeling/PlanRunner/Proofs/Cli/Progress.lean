import Mathlib.Data.List.Infix
import PlanRunner.Cli.Progress

/-!
# PlanRunner — what is shown of a run that was not followed closely

Who shows the progress of a run may get only some of its states. Which log lines are new in a
state is found by counting those of the state shown before. This is right whichever states are
missing, as long as the log of each state goes on from the logs of all earlier ones. The last
state must not be missing.

* `isLogLine`, `isClosingLine` — the kinds of lines can be told apart;
* `Follows` — states of one run whose logs go on from one another, up to the end of the run;
* `Follows.shown` — then each log line is shown once, in order, and the end of the run is shown
  once, at last.
-/

namespace PlanRunner.Cli

-- ---------------------------------------------------------------------------
-- Kinds of lines
-- ---------------------------------------------------------------------------

def logLine (line : String) : String := s!"  · {line}"

def closingLine (status : RunStatus) : String := s!"  Run {status.name}"

def isLogLine (line : String) : Bool := "  · ".toList.isPrefixOf line.toList

def isClosingLine (line : String) : Bool := "  Run ".toList.isPrefixOf line.toList

@[simp] theorem isLogLine_logLine (line : String) : isLogLine (logLine line) = true := by
  simp only [isLogLine, logLine, String.toList_append]
  rfl

/-- A line of the log does not close the output. -/
@[simp] theorem isClosingLine_logLine (line : String) : isClosingLine (logLine line) = false := by
  simp only [isClosingLine, logLine, String.toList_append]
  rfl

/-- The counts are on a line of their own, with the attempt in front. -/
theorem countsLine_eq (s : RunState) : ∃ rest, countsLine s = "  [attempt " ++ rest := by
  unfold countsLine
  simp only [String.append_assoc]
  exact ⟨_, rfl⟩

@[simp] theorem isLogLine_countsLine (s : RunState) : isLogLine (countsLine s) = false := by
  obtain ⟨rest, hline⟩ := countsLine_eq s
  rw [isLogLine, hline, String.toList_append]
  rfl

@[simp] theorem isClosingLine_countsLine (s : RunState) : isClosingLine (countsLine s) = false := by
  obtain ⟨rest, hline⟩ := countsLine_eq s
  rw [isClosingLine, hline, String.toList_append]
  rfl

@[simp] theorem isLogLine_closingLine (status : RunStatus) :
    isLogLine (closingLine status) = false := by
  simp only [isLogLine, closingLine, String.toList_append]
  rfl

@[simp] theorem isClosingLine_closingLine (status : RunStatus) :
    isClosingLine (closingLine status) = true := by
  simp only [isClosingLine, closingLine, String.toList_append]
  rfl

/-- The lines on the counts of a state. -/
def countsLines (previous : Option RunState) (s : RunState) : List String :=
  if previous.map countsOf ≠ some (countsOf s) ∧ 0 < s.total then [countsLine s] else []

/-- New log lines come first, then the counts if they changed, then the closing line. -/
theorem progressLines_eq (previous : Option RunState) (s : RunState) :
    progressLines previous s = (s.logs.drop (seenLogs previous s)).map logLine ++
      countsLines previous s ++ if s.status = .running then [] else [closingLine s.status] := rfl

/-- Lines of another kind are not among the counts. -/
theorem filter_countsLines {kind : String → Bool} (h : ∀ s, kind (countsLine s) = false)
    (previous : Option RunState) (s : RunState) : (countsLines previous s).filter kind = [] := by
  unfold countsLines
  split
  · rw [List.filter_singleton, h]
    rfl
  · rfl

theorem filter_isLogLine_map_logLine (logs : List String) :
    (logs.map logLine).filter isLogLine = logs.map logLine :=
  List.filter_eq_self.mpr (by simp)

theorem filter_isClosingLine_map_logLine (logs : List String) :
    (logs.map logLine).filter isClosingLine = [] :=
  List.filter_eq_nil_iff.mpr (by simp)

-- ---------------------------------------------------------------------------
-- States that follow one another
-- ---------------------------------------------------------------------------

/-- A state may come after the one that was shown before, if there was one: it is of the run with
the id, as that one was, and its log goes on from there. -/
def After (id : String) (previous : Option RunState) (s : RunState) : Prop :=
  s.id = id ∧ ∀ p, previous = some p → p.id = id ∧ p.logs <+: s.logs

/-- States of the run with an id, the last of which tells how the run ended, and the log of each
of which goes on from where the one before it was. -/
inductive Follows (id : String) : Option RunState → List RunState → RunState → Prop where
  | last {previous : Option RunState} {final : RunState} (hafter : After id previous final)
      (hended : final.status ≠ .running) : Follows id previous [final] final
  | more {previous : Option RunState} {s final : RunState} {rest : List RunState}
      (hafter : After id previous s) (hrunning : s.status = .running)
      (hlogs : s.logs <+: final.logs) (h : Follows id (some s) rest final) :
      Follows id previous (s :: rest) final

/-- States whose logs go on from one another in any two of them follow one another. -/
theorem follows_of_pairwise {id : String} {final : RunState} (hended : final.status ≠ .running)
    {earlier : List RunState} {previous : Option RunState}
    (hafter : ∀ x ∈ earlier ++ [final], After id previous x)
    (hrunning : ∀ x ∈ earlier, x.status = .running)
    (hlogs : (earlier ++ [final]).Pairwise fun x y => x.logs <+: y.logs) :
    Follows id previous (earlier ++ [final]) final := by
  -- one state after the other; what was shown is the log of the one before
  induction earlier generalizing previous with
  | nil => exact .last (hafter final List.mem_cons_self) hended
  | cons s rest ih =>
    rw [List.cons_append, List.forall_mem_cons] at hafter
    rw [List.forall_mem_cons] at hrunning
    rw [List.cons_append, List.pairwise_cons] at hlogs
    refine .more hafter.1 hrunning.1 (hlogs.1 final (by simp)) (ih ?_ hrunning.2 hlogs.2)
    intro x hx
    refine ⟨(hafter.2 x hx).1, fun p hp => ?_⟩
    obtain rfl := Option.some.inj hp
    exact ⟨hafter.1.1, hlogs.1 x hx⟩

/-- Any choice of states of a run that has its last one. The last state is the only one that is not
running, so it comes last in the choice. -/
theorem follows_of_sublist {id : String} {earlier told : List RunState} {final : RunState}
    (hids : ∀ x ∈ earlier ++ [final], x.id = id) (hrunning : ∀ x ∈ earlier, x.status = .running)
    (hended : final.status ≠ .running)
    (hlogs : (earlier ++ [final]).Pairwise fun x y => x.logs <+: y.logs)
    (htold : told.Sublist (earlier ++ [final])) (hfinal : final ∈ told) :
    Follows id none told final := by
  obtain ⟨chosen, last, rfl, hchosen, hlast⟩ := List.sublist_append_iff.mp htold
  obtain rfl : last = [final] := by
    rcases List.mem_append.mp hfinal with hmem | hmem
    · exact absurd (hrunning final (hchosen.subset hmem)) hended
    · exact hlast.antisymm (List.singleton_sublist.mpr hmem)
  exact follows_of_pairwise hended
    (fun x hx => ⟨hids x (htold.subset hx), fun p hp => absurd hp (by simp)⟩)
    (fun x hx => hrunning x (hchosen.subset hx)) (hlogs.sublist htold)

-- ---------------------------------------------------------------------------
-- What is shown
-- ---------------------------------------------------------------------------

/-- How many log lines have been shown. -/
def shownLogs (previous : Option RunState) : Nat :=
  (previous.map fun p => p.logs.length).getD 0

/-- In a state that goes on from the one before, those lines are new that come after as many as
were shown. -/
theorem After.seenLogs_eq {id : String} {previous : Option RunState} {s : RunState}
    (h : After id previous s) :
    seenLogs previous s = shownLogs previous ∧ shownLogs previous ≤ s.logs.length := by
  cases previous with
  | none => exact ⟨rfl, Nat.zero_le _⟩
  | some p =>
    obtain ⟨hid, hbefore⟩ := h
    obtain ⟨hp, hlogs⟩ := hbefore p rfl
    have hle : p.logs.length ≤ s.logs.length := hlogs.length_le
    refine ⟨?_, hle⟩
    rw [seenLogs, if_pos (hp.trans hid.symm), min_eq_left hle]
    rfl

/-- The part of a list from a place up to the end of a prefix, and from there on. -/
theorem drop_append_drop {α : Type} {xs ys : List α} (h : xs <+: ys) {n : Nat}
    (hn : n ≤ xs.length) : xs.drop n ++ ys.drop xs.length = ys.drop n := by
  obtain ⟨zs, rfl⟩ := h
  rw [List.drop_left, List.drop_append_of_le_length hn]

/-- Whether lines show a log and how a run ended: the log lines among them are those of the log, in
order, and there is one closing line, the last of all. -/
structure Shown (logs : List String) (status : RunStatus) (lines : List String) : Prop where
  logs : lines.filter isLogLine = logs.map logLine
  closing : lines.filter isClosingLine = [closingLine status]
  last : lines.getLast? = some (closingLine status)

/-- What is shown of states of a run that follow one another up to its end is the rest of its log
and how it ended. -/
theorem Follows.shown {id : String} {previous : Option RunState} {states : List RunState}
    {final : RunState} (h : Follows id previous states final) :
    Shown (final.logs.drop (shownLogs previous)) final.status (progressOf previous states) := by
  induction h with
  | @last previous final hafter hended =>
    rw [progressOf, if_neg hended, List.append_nil, progressLines_eq, if_neg hended,
      hafter.seenLogs_eq.1]
    refine ⟨?_, ?_, List.getLast?_concat⟩
    · rw [List.filter_append, List.filter_append, filter_isLogLine_map_logLine,
        filter_countsLines isLogLine_countsLine]
      simp
    · rw [List.filter_append, List.filter_append, filter_isClosingLine_map_logLine,
        filter_countsLines isClosingLine_countsLine]
      simp
  | @more previous s final rest hafter hrunning hlogs _ ih =>
    obtain ⟨hseen, hle⟩ := hafter.seenLogs_eq
    rw [progressOf, if_pos hrunning, progressLines_eq, if_pos hrunning, List.append_nil, hseen]
    refine ⟨?_, ?_, ?_⟩
    · rw [List.filter_append, List.filter_append, filter_isLogLine_map_logLine,
        filter_countsLines isLogLine_countsLine, List.append_nil, ih.logs, ← List.map_append]
      -- what this state adds, and what the states after it add
      exact congrArg _ (drop_append_drop hlogs hle)
    · rw [List.filter_append, List.filter_append, filter_isClosingLine_map_logLine,
        filter_countsLines isClosingLine_countsLine, ih.closing]
      rfl
    · rw [List.getLast?_append, ih.last]
      rfl

end PlanRunner.Cli
