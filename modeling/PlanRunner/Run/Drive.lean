import PlanRunner.Run.Step

/-!
# PlanRunner — carrying a run through

Every step of a run leaves less to do: either a retry is used up, or the run gets to
a later phase, or there is less work left within its phase. So a run can be carried
on until it waits for something beyond a given moment, or is over.

* `Run.Closer` — one run has less to do than another;
* `Run.closer_step?` — a step brings a run closer to its end;
* `Run.drive` — a run carried on up to a moment.
-/

namespace PlanRunner

/-- How many phases may follow before a retry is used up. -/
def Phase.rank : Phase → Nat
  | .starting _ => 9
  | .asking .directCheck _ => 8
  | .asking .directAnswer _ => 7
  | .asking .plan _ => 6
  | .asking (.strategy _) _ => 8
  | .asking (.arguments _ _ _) _ => 7
  | .asking .evaluation _ => 4
  | .executing _ _ => 5
  | .over _ => 0

/-- How much work is left within a phase. -/
def Phase.work : Phase → Nat
  | .executing walks _ => Walk.weightAll walks
  | .asking (.arguments _ a _) _ => a.todo.length
  | _ => 0

namespace Run

variable {σ : Type}

/-- How much a run has to do at most: its retries, its phases and its work. -/
def remaining (s : Settings) (r : Run) : Nat × Nat × Nat :=
  (s.maxRetries - r.retries, r.phase.rank, r.phase.work)

/-- Whether a run has less to do than another. -/
def Closer (s : Settings) (r' r : Run) : Prop :=
  Prod.Lex (· < ·) (Prod.Lex (· < ·) (· < ·)) (r'.remaining s) (r.remaining s)

theorem Closer.ofRetry {s : Settings} {r' r : Run} (hr : r'.retries = r.retries + 1)
    (h : r.retries < s.maxRetries) : Closer s r' r :=
  .left _ _ (by simp only [hr]; omega)

theorem Closer.ofRank {s : Settings} {r' r : Run} (hr : r'.retries = r.retries)
    (h : r'.phase.rank < r.phase.rank) : Closer s r' r := by
  unfold Closer remaining
  rw [hr]
  exact .right _ (.left _ _ h)

theorem Closer.ofWork {s : Settings} {r' r : Run} (hr : r'.retries = r.retries)
    (h : r'.phase.rank = r.phase.rank) (hw : r'.phase.work < r.phase.work) : Closer s r' r := by
  unfold Closer remaining
  rw [hr, h]
  exact .right _ (.right _ hw)

/-- No chain of runs gets closer to the end for ever. -/
theorem closer_wf (s : Settings) : WellFounded (Closer s) :=
  InvImage.wf (remaining s)
    (Prod.lex (WellFoundedRelation.mk (· < ·) Nat.lt_wfRel.wf)
      (Prod.lex (WellFoundedRelation.mk (· < ·) Nat.lt_wfRel.wf)
        (WellFoundedRelation.mk (· < ·) Nat.lt_wfRel.wf))).wf

/-! ## What each event does to what is left -/

theorem ask_retries (s : Services σ) (around : Surroundings σ) (r : Run) (question : Question)
    (body : String) : (ask s around r question body).2.retries = r.retries := by
  unfold ask
  split
  · rfl
  · split <;> rfl

theorem ask_phase (s : Services σ) (around : Surroundings σ) (r : Run) (question : Question)
    (body : String) :
    ∃ answer, (ask s around r question body).2.phase = .asking question answer := by
  unfold ask
  split
  · exact ⟨_, rfl⟩
  · split <;> exact ⟨_, rfl⟩

theorem closer_ask {s : Services σ} {around : Surroundings σ} {r₀ r : Run} {question : Question}
    {body : String} (hr : r.retries = r₀.retries)
    (h : ∀ answer, (Phase.asking question answer).rank < r₀.phase.rank) :
    Closer s.settings (ask s around r question body).2 r₀ := by
  obtain ⟨answer, ha⟩ := ask_phase s around r question body
  exact .ofRank (by rw [ask_retries, hr]) (by rw [ha]; exact h answer)

theorem closer_over {s : Settings} {r₀ r : Run} {error : Option RunError}
    (hr : r.retries = r₀.retries) (h : 0 < r₀.phase.rank) :
    Closer s (r.conclude error) r₀ :=
  .ofRank hr h

theorem closer_adopt {s : Settings} {around : Surroundings σ} {r₀ r : Run} {plan : Plan}
    {ledger : Ledger} (hr : r.retries = r₀.retries) (h : 5 < r₀.phase.rank) :
    Closer s (adopt around r plan ledger).2 r₀ :=
  .ofRank hr h

theorem closer_judged {s : Services σ} {around : Surroundings σ} {r₀ r : Run} {verdict : Verdict}
    (hr : r.retries = r₀.retries) (h : 0 < r₀.phase.rank) :
    Closer s.settings (judged s around r verdict).2 r₀ := by
  unfold judged
  split
  · exact closer_over hr h
  · simp only
    split
    · exact closer_over hr h
    · rename_i hmax
      refine .ofRetry ?_ ?_
      · rw [ask_retries]; simp [log, hr]
      · simp only [log] at hmax; omega

theorem closer_giveUp {s : Settings} {around : Surroundings σ} {r₀ r : Run} {reason why : String}
    (hr : r.retries = r₀.retries) (h : 0 < r₀.phase.rank) :
    Closer s (giveUp around r reason why).2 r₀ :=
  closer_over hr h

theorem closer_planned {s : Settings} {around : Surroundings σ} {r₀ r : Run} {reply : String}
    (hr : r.retries = r₀.retries) (h : 5 < r₀.phase.rank) :
    Closer s (planned around r reply).2 r₀ := by
  unfold planned
  split
  · exact closer_over hr (by omega)
  · exact closer_adopt hr h

/-- Adjustments that ask again have to leave fewer of them. -/
theorem closer_adjust {s : Services σ} {around : Surroundings σ} {r₀ r : Run} {reason : String}
    {named : List String} {next : AdjustStep} (hr : r.retries = r₀.retries)
    (h : 7 ≤ r₀.phase.rank)
    (hw : ∀ state node text, next = .asks state node text →
      7 < r₀.phase.rank ∨ state.todo.length < r₀.phase.work) :
    Closer s.settings (adjust s around r reason named next).2 r₀ := by
  unfold adjust
  split
  · exact closer_adopt hr (by omega)
  · exact closer_giveUp hr (by omega)
  · rename_i state node instruction
    obtain ⟨answer, ha⟩ := ask_phase s around r (.arguments reason state node.id)
      (Prompt.parameterExtraction r.query node instruction)
    have hretries := (ask_retries s around r (.arguments reason state node.id)
      (Prompt.parameterExtraction r.query node instruction)).trans hr
    rcases hw state node instruction rfl with hlt | hlt
    · exact .ofRank hretries (by rw [ha]; exact hlt)
    · rcases Nat.lt_or_ge 7 r₀.phase.rank with hrank | hrank
      · exact .ofRank hretries (by rw [ha]; exact hrank)
      · refine .ofWork hretries ?_ ?_
        · rw [ha]; show 7 = r₀.phase.rank; omega
        · rw [ha]; exact hlt

theorem closer_retry {s : Services σ} {around : Surroundings σ} {r₀ r : Run} {reason : String}
    {action : RetryAction} (hr : r.retries = r₀.retries) (h : 7 < r₀.phase.rank) :
    Closer s.settings (retry s around r reason action).2 r₀ := by
  unfold retry
  split
  · exact closer_giveUp hr (by omega)
  · split
    · exact closer_adopt hr (by omega)
    · exact closer_giveUp hr (by omega)
  · exact closer_adjust hr (by omega) fun _ _ _ _ => .inl h

theorem closer_answered {s : Services σ} {around : Surroundings σ} {r : Run}
    {question : Question} {answer : Answer} {outcome : Except RunError String}
    (hp : r.phase = .asking question answer) :
    Closer s.settings (answered s around r question outcome).2 r := by
  unfold answered
  split
  · refine closer_over rfl ?_
    rw [hp]; cases question <;> simp [Phase.rank]
  · split
    · exact closer_ask rfl fun _ => by rw [hp]; simp [Phase.rank]
    · exact closer_ask rfl fun _ => by rw [hp]; simp [Phase.rank]
  · exact closer_ask rfl fun _ => by rw [hp]; simp [Phase.rank]
  · exact closer_over rfl (by rw [hp]; simp [Phase.rank])
  · exact closer_over rfl (by rw [hp]; simp [Phase.rank])
  · exact closer_planned rfl (by rw [hp]; simp [Phase.rank])
  · exact closer_over rfl (by rw [hp]; simp [Phase.rank])
  · exact closer_judged rfl (by rw [hp]; simp [Phase.rank])
  · exact closer_judged rfl (by rw [hp]; simp [Phase.rank])
  · exact closer_retry rfl (by rw [hp]; simp [Phase.rank])
  · exact closer_giveUp rfl (by rw [hp]; simp [Phase.rank])
  · refine closer_adjust rfl (by rw [hp]; simp [Phase.rank]) fun state node text h => .inr ?_
    rw [hp]
    exact Adjusting.todo_length_answered h
  · exact closer_giveUp rfl (by rw [hp]; simp [Phase.rank])

theorem closer_begin {s : Services σ} {around : Surroundings σ} {r : Run} {request : Facts}
    (hp : r.phase = .starting request) : Closer s.settings (begin s around r request).2 r := by
  unfold begin
  simp only
  split
  · refine closer_ask ?_ fun _ => by rw [hp]; simp [Phase.rank]
    split <;> rfl
  · refine closer_ask ?_ fun _ => by rw [hp]; simp [Phase.rank]
    split <;> rfl

theorem closer_executed {s : Services σ} {around : Surroundings σ} {r : Run} {walks : List Walk}
    {nextTicket : Nat} (hp : r.phase = .executing walks nextTicket) :
    Closer s.settings (executed s around r).2 r := by
  unfold executed
  split
  · exact closer_over rfl (by rw [hp]; simp [Phase.rank])
  · simp only
    split
    · exact closer_judged rfl (by rw [hp]; simp [Phase.rank])
    · exact closer_ask rfl fun _ => by rw [hp]; simp [Phase.rank]

theorem closer_walked {s : Settings} {around : Surroundings σ} {r : Run} {walks walks' : List Walk}
    {nextTicket : Nat} {sh : Shared σ} (hp : r.phase = .executing walks nextTicket)
    (hw : Walk.weightAll walks' < Walk.weightAll walks) :
    Closer s (walked around r walks' sh).2 r := by
  refine Closer.ofWork rfl ?_ ?_
  · rw [hp]; rfl
  · rw [hp]; exact hw

/-- A step brings a run closer to its end. -/
theorem closer_step? {s : Services σ} {around around' : Surroundings σ} {r r' : Run}
    (h : step? s around r = some (around', r')) : Closer s.settings r' r := by
  have hclose : ∀ {x : Surroundings σ × Run}, Closer s.settings x.2 r → some x = some (around', r') →
      Closer s.settings r' r := by
    rintro x hx hxr
    rw [Option.some.injEq] at hxr
    rwa [hxr] at hx
  unfold step? at h
  split at h
  · rename_i request hp
    exact hclose (closer_begin hp) h
  · rename_i question answer hp
    split at h
    · exact hclose (closer_answered hp) h
    · split at h
      · exact hclose (closer_answered hp) h
      · simp at h
  · rename_i walks nextTicket hp
    split at h
    · exact hclose (closer_executed hp) h
    · split at h
      · rename_i hstep
        exact hclose (closer_walked hp (Walk.weight_stepAll? hstep)) h
      · simp at h
  · simp at h

theorem closer_next? {s : Services σ} {limit : Option Nat} {around around' : Surroundings σ}
    {r r' : Run} (h : next? s limit around r = some (around', r')) : Closer s.settings r' r := by
  unfold next? at h
  split at h
  · rename_i hs
    rw [h] at hs
    exact closer_step? hs
  · split at h
    · simp at h
    · split at h
      · exact closer_step? h
      · simp at h

/-- Carries a run on, up to a moment if one is given, until it waits or is over. -/
def drive (s : Services σ) (limit : Option Nat) (around : Surroundings σ) (r : Run) :
    Surroundings σ × Run :=
  match _h : next? s limit around r with
  | none => (around, r)
  | some (around', r') => drive s limit around' r'
termination_by (closer_wf s.settings).wrap r
decreasing_by exact closer_next? _h

theorem drive_of_next?_eq_none {s : Services σ} {limit : Option Nat} {around : Surroundings σ}
    {r : Run} (h : next? s limit around r = none) : drive s limit around r = (around, r) := by
  rw [drive]
  split
  · rfl
  · rename_i hsome
    rw [h] at hsome
    exact absurd hsome (by simp)

theorem drive_of_next?_eq_some {s : Services σ} {limit : Option Nat} {around around' : Surroundings σ}
    {r r' : Run} (h : next? s limit around r = some (around', r')) :
    drive s limit around r = drive s limit around' r' := by
  rw [drive]
  split
  · rename_i hnone
    rw [h] at hnone
    exact absurd hnone (by simp)
  · rename_i hsome
    rw [h] at hsome
    obtain ⟨rfl, rfl⟩ := Prod.mk.inj (Option.some.inj hsome)
    rfl

end Run

end PlanRunner
