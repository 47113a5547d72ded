import PlanRunner.Proofs.Engine.Coherence
import PlanRunner.Proofs.Run.Budget

/-!
# PlanRunner — the text of a result

The text of a result is put together where an execution has come to its end, and kept beside the
plan and the ledger while these change with every retry. So it may fall behind them. It does so
where an execution begins and catches up where it ends; in between it still is what the attempt
before came to. A run that ends as cancelled in the midst of an execution is filed with that
text, whatever its ledger holds by then. Every other end of a run that has executed a plan comes
after the text has caught up.

* `Run.UpToDate` — the text is that of the plan with the ledger;
* `Run.Earlier` — the text that was there before an attempt;
* `Run.Worded` — which of them a run has, by its place in the loop of attempts;
* `Run.Worded.event` — every event keeps it;
* `Run.recorded_text` — the text with which a run is filed, at each of its ends.
-/

namespace PlanRunner

namespace Run

variable {σ : Type} {s : Services σ} {around : Surroundings σ} {r₀ r : Run}
  {x : Surroundings σ × Run} {marks : List Mark} {P : Surroundings σ → Run → Surroundings σ × Run → Prop}

/-- The text of the result is that of the plan as far as the ledger has it. -/
def UpToDate (r : Run) : Prop := r.resultText = r.planOrEmpty.resultText r.ledger

/-- A log is nothing to the text. -/
theorem UpToDate.withLogs (h : r.UpToDate) (logs : List String) : (r.withLogs logs).UpToDate := by
  have hvalues : (r.withLogs logs).ledger.value? = r.ledger.value? := rfl
  have htexts := Node.resultTexts_congr hvalues r.planOrEmpty.roots
  exact h.trans (congrArg joinFilled htexts.symm)

/-- What the text can be before an attempt is at its end: before the first there is none, and
before another one it is that with which the attempt before was left. -/
inductive Earlier (s : Services σ) (P : Surroundings σ → Run → Surroundings σ × Run → Prop)
    (r₀ : Run) : Nat → String → Prop where
  | first : Earlier s P r₀ 1 ""
  | again {q : Run} {marks : List Mark} (h : Course s P r₀ q marks)
      (hstage : q.phase.stage = .retrying) (htext : q.UpToDate) :
      Earlier s P r₀ (q.attempt + 1) q.resultText

/-- Whether a run has been cancelled in the midst of an execution. -/
def CutShort (error : Option RunError) (marks : List Mark) : Prop :=
  error = some .cancelled ∧ Mark.last marks = .execution

/-- What the place of a run in the loop of attempts tells about its text. -/
def Worded (s : Services σ) (P : Surroundings σ → Run → Surroundings σ × Run → Prop) (r₀ r : Run)
    (marks : List Mark) : Prop :=
  match r.phase.stage with
  | .opening => r.resultText = ""
  | .executing => Earlier s P r₀ r.attempt r.resultText
  | .evaluating => r.UpToDate
  | .retrying => r.UpToDate
  | .over error => .execution ∈ marks →
      (CutShort error marks → Earlier s P r₀ r.attempt r.resultText) ∧
        (¬ CutShort error marks → r.UpToDate)

/-- Before the first execution nothing has been aggregated. -/
theorem Worded.opening (h : Worded s P r₀ r marks) (hstage : r.phase.stage = .opening) :
    r.resultText = "" := by
  simpa only [Worded, hstage] using h

/-- During an execution the text is that of an earlier attempt, or empty. -/
theorem Worded.executing (h : Worded s P r₀ r marks) (hstage : r.phase.stage = .executing) :
    Earlier s P r₀ r.attempt r.resultText := by
  simpa only [Worded, hstage] using h

/-- While a verdict or a retry is asked for, the text is that of the ledger. -/
theorem Worded.upToDate (h : Worded s P r₀ r marks)
    (hstage : r.phase.stage = .evaluating ∨ r.phase.stage = .retrying) : r.UpToDate := by
  rcases hstage with hstage | hstage
  · simpa only [Worded, hstage] using h
  · simpa only [Worded, hstage] using h

/-- Whoever is judged has a text that is up to date. -/
theorem Judges.upToDate {q : Run} {verdict : Verdict} (h : Judges s r q verdict)
    (hr : Worded s P r₀ r marks) : q.UpToDate := by
  cases h with
  | reply hphase _ =>
    refine hr.upToDate (.inl ?_)
    rw [hphase]
    rfl
  | failures _ _ _ => exact rfl

/-- An end that is no cancellation leaves a text that is up to date. -/
theorem UpToDate.conclude (h : r.UpToDate) {error : Option RunError} (herror : error ≠ some .cancelled) :
    Worded s P r₀ (r.conclude error) marks :=
  fun _ => ⟨fun hcut => absurd hcut.1 herror, fun _ => h⟩

/-- The end of a run before its time. -/
theorem Worded.breaksOff (h : Worded s P r₀ r marks) (hkept : r.standing.Kept s.settings.maxRetries marks)
    {error : RunError} (hlive : ∀ error, r.phase ≠ .over error)
    (hend : r.phase.stage = .opening ∨ error = .cancelled) :
    Worded s P r₀ (r.conclude (some error)) marks := by
  intro hplan
  have hfits := hkept.fits
  -- by the stage: only a run that is broken off within an execution is left with an earlier text
  match hstage : r.phase.stage with
  | .opening => exact absurd hplan (hkept.execution_notMem hstage)
  | .executing =>
    obtain rfl := hend.resolve_left (by simp [hstage])
    simp only [Standing.Fits, standing, hstage] at hfits
    exact ⟨fun _ => h.executing hstage, fun hwhole => absurd ⟨rfl, hfits.1⟩ hwhole⟩
  | .evaluating =>
    simp only [Standing.Fits, standing, hstage] at hfits
    refine ⟨fun hcut => ?_, fun _ => h.upToDate (.inl hstage)⟩
    exact absurd (hfits.1.symm.trans hcut.2) (by decide)
  | .retrying =>
    simp only [Standing.Fits, standing, hstage] at hfits
    refine ⟨fun hcut => ?_, fun _ => h.upToDate (.inr hstage)⟩
    exact absurd (hfits.1.symm.trans hcut.2) (by decide)
  | .over error => exact absurd (Phase.eq_over_of_stage hstage) (hlive error)

/-- An event keeps what is told about the text. -/
theorem Worded.event {m : Option Mark} (h : Worded s P r₀ r marks) (hcourse : Course s P r₀ r marks)
    (hkept : r.standing.Kept s.settings.maxRetries marks) (hlive : ∀ error, r.phase ≠ .over error)
    (hevent : Event s around r m x) : Worded s P r₀ x.2 (marks ++ m.toList) := by
  cases hevent with
  | @asks question logs context body hraises hlogs =>
    obtain ⟨answer, hask⟩ :=
      exists_ask s { around with context := context } (r.withLogs logs) question body
    have hstage := hraises.stage
    rw [hask]
    -- a question changes no text; which text there is depends on the stage it was asked at
    cases hraises with
    | directCheck _ => exact h.opening hstage
    | directAnswer _ => exact h.opening hstage
    | planAtOnce _ => exact h.opening hstage
    | planInstead _ => exact h.opening hstage
    | arguments _ => exact (h.upToDate (.inr hstage)).withLogs logs
  | breaksOff error hend hdone =>
    rw [Option.toList_none, List.append_nil]
    exact h.breaksOff hkept hlive hend
  | stops reason why hstage =>
    have htext := (h.upToDate (.inr hstage)).withLogs (r.ledger.logs ++ [s!"Retry stopped: {why}"])
    exact htext.conclude (by simp)
  | answersDirectly text hphase =>
    rw [Option.toList_none, List.append_nil]
    exact fun hplan => absurd hplan (hkept.execution_notMem (congrArg Phase.stage hphase))
  | adopts hadopts =>
    show Earlier s P r₀ (r.attempt + 1) r.resultText
    rcases hadopts.stage with hstage | hstage
    · -- no attempt has been made
      have hnone : r.attempt = 0 := by
        have hattempt : r.attempt = marks.count .execution := hkept.attempt
        rw [hattempt, List.count_eq_zero]
        exact hkept.execution_notMem hstage
      rw [hnone, h.opening hstage]
      exact .first
    · exact .again hcourse hstage (h.upToDate (.inr hstage))
  | walks hphase hturn => exact h.executing (congrArg Phase.stage hphase)
  | consults hexecuted hpolicy =>
    obtain ⟨answer, hask⟩ := exists_ask s around r.aggregated .evaluation
      (Prompt.evaluation r.query r.aggregated.resultText r.ledger.failures)
    rw [hask]
    show UpToDate r.aggregated
    rfl
  | @accepts q verdict hjudges hsufficient =>
    have htext := (hjudges.upToDate h).withLogs
      (q.ledger.logs ++ [s!"Attempt {q.attempt} sufficient"])
    exact htext.conclude (by simp)
  | @exhausts q verdict hjudges hinsufficient hspent =>
    have htext := (hjudges.upToDate h).withLogs
      (q.ledger.logs ++ [s!"Attempt {q.attempt} insufficient: {verdict.reason}"])
    exact htext.conclude (by simp)
  | @reconsiders q verdict hjudges hinsufficient hleft body =>
    obtain ⟨answer, hask⟩ :=
      exists_ask s around (q.reconsidered verdict) (.strategy verdict.reason) body
    rw [hask]
    exact (hjudges.upToDate h).withLogs
      (q.ledger.logs ++ [s!"Attempt {q.attempt} insufficient: {verdict.reason}"])

/-- So the text is accounted for all along a course. -/
theorem Course.worded (h : Course s P r₀ r marks)
    (hr₀ : r₀.standing.Kept s.settings.maxRetries []) (hfirst : Worded s P r₀ r₀ []) :
    Worded s P r₀ r marks :=
  h.keeps hfirst (fun hcourse hlive hevent hworded =>
    hworded.event hcourse (hcourse.kept hr₀) hlive hevent) fun _ hworded => hworded

/-- **The text of a result.** A run that has executed a plan is over. Whichever engine files it,
the entry in the history has the plan, and the last state that is made known has the text of the
entry. The text is that of the plan with the ledger of the entry, unless the run has been
cancelled in the midst of an execution. Then it is the text from before that attempt: none if it
was the first, and else that with which the attempt before was left. -/
theorem recorded_text {id query : String} {request : Facts} {nowMs : Nat}
    (h : Course s P (.start id query request nowMs) r marks) (hplan : .execution ∈ marks)
    {error : Option RunError} (hover : r.phase = .over error) (e : Engine σ) :
    ∃ p entry final, (e.finish r error).history = e.history.push entry ∧
      (e.finish r error).around.bus = e.around.bus.publish final ∧
      entry.result.plan = some p ∧ final.result = some entry.result.text ∧
      (¬ CutShort error marks → entry.result.text = p.resultText entry.result.ledger) ∧
      (CutShort error marks →
        Earlier s P (.start id query request nowMs) r.attempt entry.result.text) := by
  obtain ⟨p, hp⟩ := h.exists_plan hplan
  have hworded := h.worded (.start _) rfl
  simp only [Worded, hover, Phase.stage] at hworded
  obtain ⟨hearlier, htext⟩ := hworded hplan
  refine ⟨p, _, _, rfl, rfl, hp, rfl, fun hwhole => ?_, hearlier⟩
  -- the line about the end is in the log of the entry, and the text is not read off the log
  have hlogged := (htext hwhole).withLogs (r.ledger.logs ++ [s!"Run {(endStatus error).name}"])
  have hp' : (r.withLogs (r.ledger.logs ++ [s!"Run {(endStatus error).name}"])).planOrEmpty = p := by
    show r.plan.getD Plan.empty = p
    rw [hp, Option.getD_some]
  rw [UpToDate, hp'] at hlogged
  exact hlogged

/-- A run that is never good enough is filed with what its last attempt came to. -/
theorem recorded_text_doubting :
    ∃ r marks error, Course doubtingServices (Contested doubtingServices) (.start "run-1" "q" .empty 0) r
        marks ∧ .execution ∈ marks ∧ r.phase = .over error ∧ ¬ CutShort error marks ∧
      r.resultText = "\x7b\x7d" ∧
      ∀ e : Engine Unit, ∃ p entry, (e.finish r error).history = e.history.push entry ∧
        entry.result.plan = some p ∧ entry.result.text = p.resultText entry.result.ledger := by
  have hrun : (taken? doubtingServices isContested 16 (⟨0, (), .start .empty, .withCapacity 1⟩,
      Run.start "run-1" "q" .empty 0)).any (fun reached =>
        decide (.execution ∈ reached.2 ∧ Mark.last reached.2 = .evaluation ∧
          reached.1.resultText = "\x7b\x7d") && reached.1.phase.over?.isSome) = true := by
    decide +kernel
  obtain ⟨⟨r, marks⟩, hreached, htest⟩ := (Option.any_eq_true _ _).mp hrun
  simp only [Bool.and_eq_true, decide_eq_true_eq] at htest
  obtain ⟨⟨hplan, hlast, htext⟩, hphase⟩ := htest
  obtain ⟨error, hsome⟩ := Option.isSome_iff_exists.mp hphase
  have hover := Phase.eq_over_of_over? hsome
  have hcourse := course_of_taken? contested_of_isContested hreached .start
  rw [List.nil_append] at hcourse
  have hwhole : ¬ CutShort error marks := by
    intro hcut
    exact absurd (hlast.symm.trans hcut.2) (by decide)
  refine ⟨r, marks, error, hcourse, hplan, hover, hwhole, htext, fun e => ?_⟩
  obtain ⟨p, entry, final, hhistory, -, hp, -, hagrees, -⟩ := recorded_text hcourse hplan hover e
  exact ⟨p, entry, hhistory, hp, hagrees hwhole⟩

/-- A run that is cancelled after its first node has completed is filed without a text. -/
theorem exists_text_behind :
    ∃ (e : Engine Unit) (r : Run), Engine.Steps Engine.echoServices
        (.start Engine.echoServices.settings .empty () 0) e ∧
      e.active = some r ∧ r.phase = .over (some .cancelled) ∧ r.ledger.counts = (1, 1, 0) ∧
      (e.finish r (some .cancelled)).history.entries.map (fun entry =>
          (entry.result.text, entry.result.plan.map fun p => p.resultText entry.result.ledger)) =
        [("", some "\x7b\x7d")] := by
  have hrun : ((Engine.start Engine.echoServices.settings .empty () 0).cancelled?
      Engine.echoServices "q" 5 2).any (fun e => e.active.any fun r =>
        decide (r.phase.over? = some (some .cancelled) ∧ r.ledger.counts = (1, 1, 0) ∧
          (e.finish r (some .cancelled)).history.entries.map (fun entry =>
            (entry.result.text, entry.result.plan.map fun p => p.resultText entry.result.ledger)) =
          [("", some "\x7b\x7d")])) = true := by
    decide +kernel
  obtain ⟨e, hend, htest⟩ := (Option.any_eq_true _ _).mp hrun
  obtain ⟨r, hactive, htest⟩ := (Option.any_eq_true _ _).mp htest
  obtain ⟨hphase, hcounts, hentries⟩ := of_decide_eq_true htest
  have hover := Phase.eq_over_of_over? hphase
  exact ⟨e, r, (Engine.reaches_of_cancelled? hend).steps, hactive, hover, hcounts, hentries⟩

end Run

end PlanRunner
