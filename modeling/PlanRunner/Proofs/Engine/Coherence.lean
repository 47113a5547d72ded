import PlanRunner.Proofs.Run.Coherence
import PlanRunner.Proofs.Run.Event

/-!
# PlanRunner — whatever an engine makes known is coherent

The plan of a run, its ledger and the walks through the plan change at different moments.
Between two steps they go together nevertheless, and everything that is published or filed
is read off them at such a moment. As ids are shortened hashes, two nodes of a plan may
share one; the runs in question never have such a plan.

* `Run.Sound` — what holds of a run between two steps;
* `Run.Event.kept` — every event keeps it, and makes known the plan and the ledger it leaves;
* `Engine.Step.publishes` — what others learn from one step of an engine;
* `Engine.published_coherent` — whatever they learn in any sequence of steps is coherent.
-/

namespace PlanRunner

variable {σ : Type}

/-- Ids start with another letter than the key of a direct answer. -/
theorem Plan.Placed.directAnswerKey_notMem {p : Plan} (hp : p.Placed) :
    Run.directAnswerKey ∉ p.ids := by
  intro h
  obtain ⟨x, hx⟩ := hp.hashId_of_mem_ids h
  exact Plan.hashId_ne (by decide) hx.symm

-- ---------------------------------------------------------------------------
-- What holds of a run between two steps
-- ---------------------------------------------------------------------------

/-- What a question says about the plan of a run that puts it. Before a plan is asked for
there is none, and adjustments under way are those of the plan. -/
def Question.Fits (p : Plan) : Question → Prop
  | .directCheck => p = .empty
  | .directAnswer => p = .empty
  | .arguments _ a nodeId => a.Sound p a.named nodeId
  | .plan => True
  | .evaluation => True
  | .strategy _ => True

/-- What a phase says about the plan of a run. An execution walks through the plan. -/
def Phase.Fits (p : Plan) : Phase → Prop
  | .starting _ => p = .empty
  | .asking question _ => question.Fits p
  | .executing walks _ => Walk.idsAll walks ⊆ p.ids
  | .over _ => True

namespace Run

/-- The ids of the plan of a run come from positions, and its ledger is about the plan. -/
structure Booked (r : Run) : Prop where
  placed : r.planOrEmpty.Placed
  ledger : r.ledger.About {directAnswerKey} r.planOrEmpty

/-- What holds of a run between two steps. -/
structure Sound (r : Run) : Prop extends Booked r where
  phase : r.phase.Fits r.planOrEmpty

/-- What a step of a run comes to: a sound run, and no published state or one that shows
its plan and its ledger. -/
structure Kept (bus : Broadcast RunState) (x : Surroundings σ × Run) : Prop where
  sound : x.2.Sound
  published : x.1.bus = bus ∨ ∃ y : RunState, x.1.bus = bus.publish y ∧ y.Shows x.2.plan x.2.ledger

variable {s : Services σ} {around : Surroundings σ} {r : Run}

/-- A run whose plan is in order has every id once. -/
theorem Booked.nodup (hr : r.Booked) (hfree : r.planOrEmpty.CollisionFree) :
    r.planOrEmpty.ids.Nodup :=
  hr.placed.ids_nodup hfree

/-- A ledger about a plan without collisions is coherent. -/
theorem Booked.coherent (hr : r.Booked) (hfree : r.planOrEmpty.CollisionFree) :
    r.ledger.Coherent r.plan :=
  hr.ledger.coherent (hr.nodup hfree)

/-- A line of the log is about no node. -/
theorem Booked.log (hr : r.Booked) (line : String) : (r.log line).Booked :=
  ⟨hr.placed, hr.ledger.log line⟩

/-- A run starts sound: no plan, and an empty ledger. -/
theorem Sound.start (id query : String) (request : Facts) (nowMs : Nat) :
    (Run.start id query request nowMs).Sound where
  placed := fun _ hs => absurd hs List.not_mem_nil
  ledger := .start
  phase := rfl

/-- A cancellation touches neither plan nor ledger. -/
theorem Sound.cancel (hr : r.Sound) (nowMs : Nat) : (r.cancel nowMs).Sound :=
  ⟨⟨hr.placed, hr.ledger⟩, hr.phase⟩

-- ---------------------------------------------------------------------------
-- What follows from each event
-- ---------------------------------------------------------------------------

/-- A run that ends publishes nothing more by itself; the engine does that when it files it. -/
theorem conclude_kept (hr : r.Booked) (error : Option RunError) :
    Kept around.bus (around, r.conclude error) :=
  ⟨⟨⟨hr.placed, hr.ledger⟩, trivial⟩, .inl rfl⟩

/-- A question is put without a word to the subscribers. -/
theorem ask_kept (question : Question) (body : String) (hr : r.Booked)
    (hq : question.Fits r.planOrEmpty) : Kept around.bus (ask s around r question body) := by
  unfold ask
  split
  · exact ⟨⟨⟨hr.placed, hr.ledger⟩, hq⟩, .inl rfl⟩
  · split
    · exact ⟨⟨⟨hr.placed, hr.ledger⟩, hq⟩, .inl rfl⟩
    · exact ⟨⟨⟨hr.placed, hr.ledger⟩, hq⟩, .inl rfl⟩

/-- A plan and a ledger about it are taken over together. -/
theorem adopt_kept {plan : Plan} {ledger : Ledger} (hp : plan.Placed)
    (hl : ledger.About {directAnswerKey} plan) : Kept around.bus (adopt around r plan ledger) := by
  have hwalks : Walk.idsAll (plan.roots.map fun root => .fresh root none none) = plan.ids :=
    Walk.idsAll_fresh none plan.roots
  refine ⟨⟨⟨hp, hl⟩, ?_⟩, .inr ⟨_, rfl, state_shows _ _ _ _⟩⟩
  intro id hid
  show id ∈ plan.ids
  rw [← hwalks]
  exact hid

/-- The empty plan has no nodes, and neither had the ledger before. -/
theorem answerDirectly_kept (hr : r.Booked) (hempty : r.planOrEmpty = .empty) (text : String) :
    Kept around.bus (around, r.answerDirectly text) := by
  have hledger := hr.ledger
  rw [hempty] at hledger
  have hrecord := hledger.recordFragment (Set.mem_singleton _) (.completed (.str text))
  have hplaced := hr.placed
  rw [hempty] at hplaced
  exact ⟨⟨⟨hplaced, hrecord.log _⟩, trivial⟩, .inl rfl⟩

theorem walked_kept_of_change (hr : r.Booked) {walks : List Walk} {sh : Shared σ}
    (hwalks : Walk.idsAll walks ⊆ r.planOrEmpty.ids)
    (hl : sh.ledger.About {directAnswerKey} r.planOrEmpty) (hchanges : sh.changes = [sh.ledger]) :
    Kept around.bus (walked around r walks sh) := by
  refine ⟨⟨⟨hr.placed, hl⟩, hwalks⟩, .inr ⟨{ r with ledger := sh.ledger }.current, ?_, ?_⟩⟩
  · rw [walked, hchanges]
    rfl
  · exact state_shows _ _ _ _

/-- A turn starts or ends a node of the plan, and the ledger after it is made known. -/
theorem walked_kept (hr : r.Booked) {d : Dispatch σ} {walks walks' : List Walk} {nextTicket : Nat}
    {sh : Shared σ} (hwalks : Walk.idsAll walks ⊆ r.planOrEmpty.ids)
    (hturn : Traversal.Turn d ⟨walks, r.shared around nextTicket⟩ ⟨walks', sh⟩) :
    Kept around.bus (walked around r walks' sh) := by
  have hwalks' : Walk.idsAll walks' ⊆ r.planOrEmpty.ids :=
    List.Subset.trans hturn.ids_sublist.subset hwalks
  have haside : ∀ {id}, id ∈ Walk.idsAll walks → id ∉ ({directAnswerKey} : Set String) := by
    intro id hid hkey
    rw [Set.mem_singleton_iff.mp hkey] at hid
    exact hr.placed.directAnswerKey_notMem (hwalks hid)
  cases hturn.touches with
  -- what changed, if anything did, is one node of the walks, hence of the plan
  | quiet hledger hchanges =>
    have hsame : sh.ledger = r.ledger := hledger
    have hnone : sh.changes = [] := hchanges
    refine ⟨⟨⟨hr.placed, ?_⟩, hwalks'⟩, .inl ?_⟩
    · show sh.ledger.About {directAnswerKey} r.planOrEmpty
      rw [hsame]
      exact hr.ledger
    · rw [walked, hnone]
      rfl
  | starts hid hmark hchanges =>
    have hledger := hr.ledger.markRunning (haside hid) (hwalks hid) hmark
    exact walked_kept_of_change hr hwalks' hledger hchanges
  | ends hid outcome hrecord hchanges =>
    have hledger := hr.ledger.record (haside hid) (hwalks hid) outcome
    rw [← show sh.ledger = Walk.record r.ledger _ outcome from hrecord] at hledger
    exact walked_kept_of_change hr hwalks' hledger hchanges

-- ---------------------------------------------------------------------------
-- Every event
-- ---------------------------------------------------------------------------

/-- Adjustments that go on are those of the plan. -/
theorem Adjusts.sound {reason : String} {named : List String} {next : AdjustStep}
    (h : Adjusts r reason named next) (hr : r.Sound) (hd : r.planOrEmpty.ids.Nodup) :
    next.Sound r.planOrEmpty named := by
  cases h with
  | begins _ _ => exact Adjusting.start_sound hd hr.placed.empty_notMem _
  | goesOn hphase reply =>
    have hfits := hr.phase
    rw [hphase] at hfits
    exact Adjusting.answered_sound hd hr.placed.empty_notMem hfits reply

/-- A question that comes up says about the plan what it has to. -/
theorem Raises.fits {question : Question} (h : Raises r question) (hr : r.Sound)
    (hd : r.planOrEmpty.ids.Nodup) : question.Fits r.planOrEmpty := by
  have hfits := hr.phase
  -- by the question: what it is about was the plan, or the direct answer, that the phase had in
  -- hand
  cases h with
  | directCheck hphase =>
    rw [hphase] at hfits
    exact hfits
  | directAnswer hphase =>
    rw [hphase] at hfits
    exact hfits
  | planAtOnce _ => trivial
  | planInstead _ => trivial
  | @arguments reason instruction named state node hadjusts =>
    have hsound := hadjusts.sound hr hd
    have hnamed : state.named = named := hsound.1
    show state.Sound r.planOrEmpty state.named node.id
    rw [hnamed]
    exact hsound

/-- A plan that is taken over has its ids from positions, and its ledger is about it. -/
theorem Adopts.about {plan : Plan} {ledger : Ledger} (h : Adopts r plan ledger) (hr : r.Sound)
    (hd : r.planOrEmpty.ids.Nodup) : plan.Placed ∧ ledger.About {directAnswerKey} plan := by
  have hempty := hr.placed.empty_notMem
  cases h with
  | planned _ hplan =>
    have hplaced : plan.Placed := by
      unfold Plan.ofReply at hplan
      split at hplan
      · exact absurd hplan (by simp)
      · exact (Plan.Placed.ofJson hplan).1
    have hledger : (Ledger.carryOver plan.count r.ledger []).About {directAnswerKey} plan :=
      .carryOver hr.ledger.orderly fun _ hid => absurd hid List.not_mem_nil
    exact ⟨hplaced, hledger.log _⟩
  | replanned _ _ hreplan =>
    exact ⟨(Retried.replan hreplan).placed hr.placed hd hempty, hr.ledger.replan hd hempty hreplan⟩
  | adjusted hadjusts =>
    -- adjustments keep the ids, so the ledger stays about the plan without what is pending again
    have hsound := hadjusts.sound hr hd
    exact ⟨hsound.placed hr.placed, hr.ledger.adjusted hsound⟩

/-- An event keeps what holds between two steps, and makes known at most how the run stands
after it. -/
theorem Event.kept {m : Option Mark} {x : Surroundings σ × Run} (h : Event s around r m x)
    (hr : r.Sound) (hd : r.planOrEmpty.ids.Nodup) : Kept around.bus x := by
  -- a run that is judged differs in its text alone, which the books do not read
  have hjudged : ∀ {q : Run} {verdict : Verdict}, Judges s r q verdict → q.Booked := by
    intro q verdict hjudges
    obtain ⟨text, rfl⟩ := hjudges.exists_eq
    exact ⟨hr.placed, hr.ledger⟩
  cases h with
  | @asks question logs context body hraises hlogs =>
    have hagrees : (r.withLogs logs).ledger.Agrees r.ledger := ⟨rfl, rfl, rfl, rfl, rfl⟩
    have hlogged : (r.withLogs logs).Booked := ⟨hr.placed, .of_agrees hagrees hr.ledger⟩
    show Kept ({ around with context := context } : Surroundings σ).bus _
    exact ask_kept question body hlogged (hraises.fits hr hd)
  | breaksOff error hend hdone => exact conclude_kept hr.toBooked _
  | stops reason why hstage => exact conclude_kept (hr.toBooked.log _) _
  | answersDirectly text hphase =>
    have hempty := hr.phase
    rw [hphase] at hempty
    exact answerDirectly_kept hr.toBooked hempty text
  | adopts hadopts =>
    obtain ⟨hplaced, hledger⟩ := hadopts.about hr hd
    exact adopt_kept hplaced hledger
  | walks hphase hturn =>
    have hwalks := hr.phase
    rw [hphase] at hwalks
    exact walked_kept hr.toBooked hwalks hturn
  | consults hexecuted hpolicy => exact ask_kept .evaluation _ ⟨hr.placed, hr.ledger⟩ trivial
  | accepts hjudges hsufficient => exact conclude_kept ((hjudged hjudges).log _) _
  | exhausts hjudges hinsufficient hspent => exact conclude_kept ((hjudged hjudges).log _) _
  | @reconsiders q verdict hjudges hinsufficient hleft body =>
    have hlogged := (hjudged hjudges).log s!"Attempt {q.attempt} insufficient: {verdict.reason}"
    exact ask_kept (.strategy verdict.reason) body ⟨hlogged.placed, hlogged.ledger⟩ trivial

/-- A step keeps what holds between two steps, and makes known at most how the run stands
after it. -/
theorem Step.kept {x : Surroundings σ × Run} (h : r.Step s around x) (hr : r.Sound)
    (hd : r.planOrEmpty.ids.Nodup) : Kept around.bus x := by
  obtain ⟨m, hevent⟩ := h.event
  exact hevent.kept hr hd

end Run

-- ---------------------------------------------------------------------------
-- What others learn from an engine
-- ---------------------------------------------------------------------------

/-- What is kept after publishing was kept before, or is what was published. -/
theorem Broadcast.mem_publish {α : Type} {b : Broadcast α} {a x : α}
    (h : x ∈ (b.publish a).kept) : x ∈ b.kept ∨ x = a := by
  unfold publish at h
  simp only at h
  have hmem : x ∈ b.kept ++ [a] := by
    split at h
    · exact List.mem_of_mem_drop h
    · exact h
  rw [List.mem_append, List.mem_singleton] at hmem
  exact hmem

/-- What is in the history after filing was there before, or is what was filed. -/
theorem History.mem_push {h : History} {e x : HistoryEntry} (hx : x ∈ (h.push e).entries) :
    x ∈ h.entries ∨ x = e := by
  unfold push at hx
  simp only [List.mem_append, List.mem_singleton] at hx
  exact hx.imp_left List.mem_of_mem_drop

namespace Engine

/-- No two places of the plan of the active run share a shortened hash. -/
def CollisionFree (e : Engine σ) : Prop :=
  ∀ r, e.active = some r → r.planOrEmpty.CollisionFree

/-- What others learn from a step: nothing, how the active run stands after it, or how a
run ended that is filed. -/
inductive Publishes (e e' : Engine σ) : Prop where
  | nothing (hbus : e'.around.bus = e.around.bus) (hhistory : e'.history = e.history)
  | progress {x : RunState} {r : Run} (hbus : e'.around.bus = e.around.bus.publish x)
      (hhistory : e'.history = e.history) (hactive : e'.active = some r)
      (hshows : x.Shows r.plan r.ledger) (hledger : r.ledger.Coherent r.plan)
      (hcoherent : x.Coherent)
  | ending {x : RunState} {entry : HistoryEntry} (hbus : e'.around.bus = e.around.bus.publish x)
      (hhistory : e'.history = e.history.push entry)
      (hshows : x.Shows entry.result.plan entry.result.ledger) (hcoherent : x.Coherent)
      (hentry : entry.Coherent)

/-- What holds of an engine between two steps. -/
structure Sound (e : Engine σ) : Prop where
  run : ∀ {r}, e.active = some r → r.Sound
  bus : ∀ x ∈ e.around.bus.kept, x.Coherent
  history : ∀ entry ∈ e.history.entries, entry.Coherent

variable {s : Services σ} {e e' : Engine σ}

/-- Accepting a run publishes its first state. -/
theorem accept_publishes {query : String} {request : Facts} (h : e.accept query request = .ok e') :
    Publishes e e' ∧ ∀ {r}, e'.active = some r → r.Sound := by
  unfold accept at h
  split at h
  · exact absurd h (by simp)
  · simp only at h
    split at h
    · exact absurd h (by simp)
    · rename_i slot hslot
      have hactive : slot.active = some (.start e.nextId query request e.around.nowMs) := by
        unfold Slot.take? at hslot
        split at hslot
        · rw [← Option.some.inj hslot]
        · exact absurd hslot (by simp)
      have hsound := Run.Sound.start e.nextId query request e.around.nowMs
      have hshows : (Run.start e.nextId query request e.around.nowMs).current.Shows none (.start 0) :=
        Run.state_shows _ _ _ _
      -- there is no plan yet, and the ledger has no nodes
      have hcoherent : (Ledger.start 0).Coherent none :=
        hsound.ledger.coherent List.nodup_nil
      rw [← Except.ok.inj h]
      refine ⟨.progress rfl rfl hactive hshows hcoherent (hshows.coherent hcoherent), ?_⟩
      intro r hr
      obtain rfl := Option.some.inj (hactive.symm.trans hr)
      exact hsound

/-- A step of the active run publishes what the run says it did. -/
theorem goOn_publishes {x : Surroundings σ × Run} (hx : Run.Kept e.around.bus x)
    (hfree : x.2.planOrEmpty.CollisionFree) : Publishes e (e.goOn x) := by
  rcases hx.published with hbus | ⟨y, hbus, hshows⟩
  · exact .nothing hbus rfl
  · have hcoherent := hx.sound.coherent hfree
    exact .progress hbus rfl rfl hshows hcoherent (hshows.coherent hcoherent)

/-- The last state of a run and its entry in the history show the same. -/
theorem finish_publishes {r : Run} (hr : r.Booked) (hfree : r.planOrEmpty.CollisionFree)
    (error : Option RunError) : Publishes e (e.finish r error) := by
  have hlogged := hr.log s!"Run {(Run.endStatus error).name}"
  have hcoherent := hlogged.coherent hfree
  have hshows := Run.state_shows (r.log s!"Run {(Run.endStatus error).name}") (Run.endStatus error)
    (some r.resultText) (error.map RunError.message)
  exact .ending rfl rfl hshows (hshows.coherent hcoherent) hcoherent

/-- One step publishes nothing or what is coherent, and keeps what holds of the active run. -/
theorem Step.publishes (h : Step s e e') (hfree : e.CollisionFree) (hfree' : e'.CollisionFree)
    (he : ∀ {r}, e.active = some r → r.Sound) :
    Publishes e e' ∧ ∀ {r}, e'.active = some r → r.Sound := by
  cases h with
  | accept haccept => exact accept_publishes haccept
  | @run r x hactive hstep =>
    have hsound := he hactive
    have hkept := hstep.kept hsound (hsound.nodup (hfree r hactive))
    refine ⟨goOn_publishes hkept (hfree' x.2 rfl), ?_⟩
    intro r' hr'
    obtain rfl := Option.some.inj hr'
    exact hkept.sound
  | @finish r error hactive hphase =>
    refine ⟨finish_publishes (he hactive).toBooked (hfree r hactive) error, ?_⟩
    intro r' hr'
    have hnone : (e.finish r error).active = none := rfl
    rw [hnone] at hr'
    exact absurd hr' (by simp)
  | cancel =>
    unfold Engine.cancel
    split
    · exact ⟨.nothing rfl rfl, he⟩
    · rename_i r hactive
      refine ⟨.nothing rfl rfl, ?_⟩
      intro r' hr'
      obtain rfl := Option.some.inj hr'
      exact (he hactive).cancel _
  | close => exact ⟨.nothing rfl rfl, he⟩
  | wait untilMs => exact ⟨.nothing rfl rfl, he⟩

/-- Publishing a coherent state leaves coherent states on the bus. -/
theorem Publishes.bus_coherent (h : Publishes e e') (hbus : ∀ x ∈ e.around.bus.kept, x.Coherent) :
    ∀ x ∈ e'.around.bus.kept, x.Coherent := by
  intro x hx
  cases h with
  | nothing hsame _ =>
    rw [hsame] at hx
    exact hbus x hx
  | progress hpublish _ _ _ _ hcoherent =>
    rw [hpublish] at hx
    rcases Broadcast.mem_publish hx with hx | rfl
    · exact hbus x hx
    · exact hcoherent
  | ending hpublish _ _ hcoherent _ =>
    rw [hpublish] at hx
    rcases Broadcast.mem_publish hx with hx | rfl
    · exact hbus x hx
    · exact hcoherent

/-- And filing a coherent entry leaves coherent entries. -/
theorem Publishes.history_coherent (h : Publishes e e')
    (hhistory : ∀ entry ∈ e.history.entries, entry.Coherent) :
    ∀ entry ∈ e'.history.entries, entry.Coherent := by
  intro entry hentry
  cases h with
  | nothing _ hsame =>
    rw [hsame] at hentry
    exact hhistory entry hentry
  | progress _ hsame _ _ _ _ =>
    rw [hsame] at hentry
    exact hhistory entry hentry
  | ending _ hpush _ _ hcoherent =>
    rw [hpush] at hentry
    rcases History.mem_push hentry with hentry | rfl
    · exact hhistory entry hentry
    · exact hcoherent

/-- Any number of steps, after none of which the plan of the active run has a collision. -/
abbrev Reaches (s : Services σ) : Engine σ → Engine σ → Prop :=
  Relation.ReflTransGen fun e e' => Step s e e' ∧ e'.CollisionFree

/-- Steps between which no engine has a collision, whatever is looked at on the way. -/
theorem Steps.reaches (h : Steps s e e')
    (hway : ∀ e₁, Steps s e e₁ → Steps s e₁ e' → e₁.CollisionFree) : Reaches s e e' := by
  induction h with
  | refl => exact .refl
  | @tail e₁ e₂ hsteps hstep ih =>
    have hfirst : Reaches s e e₁ :=
      ih fun e₀ hbefore hafter => hway e₀ hbefore (hafter.tail hstep)
    exact hfirst.tail ⟨hstep, hway e₂ (hsteps.tail hstep) .refl⟩

theorem Reaches.steps (h : Reaches s e e') : Steps s e e' := by
  induction h with
  | refl => exact .refl
  | tail _ hstep ih => exact ih.tail hstep.1

theorem Sound.start (settings : Settings) (server : Facts) (world : σ) (nowMs : Nat) :
    (Engine.start settings server world nowMs).Sound where
  run := fun hr => absurd hr (by simp [Engine.start, active, Slot.free])
  bus := fun _ hx => absurd hx List.not_mem_nil
  history := fun _ hentry => absurd hentry List.not_mem_nil

/-- A step takes a sound engine to a sound one, as long as no plan collides. -/
theorem Sound.step (he : e.Sound) (hfree : e.CollisionFree) (hfree' : e'.CollisionFree)
    (h : Step s e e') : e'.Sound := by
  obtain ⟨hpublishes, hrun⟩ := h.publishes hfree hfree' he.run
  exact ⟨hrun, hpublishes.bus_coherent he.bus, hpublishes.history_coherent he.history⟩

/-- Whatever an engine reaches is sound. -/
theorem Reaches.sound {settings : Settings} {server : Facts} {world : σ} {nowMs : Nat}
    (h : Reaches s (.start settings server world nowMs) e) : e.Sound ∧ e.CollisionFree := by
  induction h with
  | refl =>
    refine ⟨.start settings server world nowMs, ?_⟩
    intro r hr
    exact absurd hr (by simp [Engine.start, active, Slot.free])
  | tail _ hstep ih =>
    obtain ⟨hstep, hfree'⟩ := hstep
    exact ⟨ih.1.step ih.2 hfree' hstep, hfree'⟩

end Engine

/-- A direct answer leaves the empty plan and no numbers. -/
theorem Run.Sound.answerDirectly_empty {r : Run} (hr : r.Sound) {answer : Answer}
    (hphase : r.phase = .asking .directAnswer answer) (text : String) :
    (r.answerDirectly text).plan = some .empty ∧ (r.answerDirectly text).ledger.total = 0 ∧
      (r.answerDirectly text).ledger.counts = (0, 0, 0) := by
  have hempty := hr.phase
  rw [hphase] at hempty
  have hledger := hr.ledger
  rw [show r.planOrEmpty = .empty from hempty] at hledger
  have htotal : r.ledger.total = 0 := hledger.total
  -- no plan has been adopted, so nothing can be in the sets
  have hle := hledger.length_le
  refine ⟨rfl, htotal, ?_⟩
  show (r.ledger.completed.length, r.ledger.failed.length, r.ledger.running.length) = (0, 0, 0)
  rw [Prod.mk.injEq, Prod.mk.injEq]
  omega

namespace Engine

variable {s : Services σ} {e : Engine σ}

/-- **Whatever an engine makes known is coherent.** Whichever steps it takes from its start,
in whichever order, with whichever answers and outcomes, as long as the plans that it comes
to have no collisions: every state it has published and kept and every run it has filed is
coherent, so is how its active run stands, and a further step makes known nothing or one
state that is coherent and shows the plan and the ledger which the step leaves. A direct
answer leaves the empty plan and no numbers. -/
theorem published_coherent {settings : Settings} {server : Facts} {world : σ} {nowMs : Nat}
    (h : Reaches s (.start settings server world nowMs) e) :
    (∀ x ∈ e.around.bus.kept, x.Coherent) ∧
      (∀ entry ∈ e.history.entries, entry.Coherent) ∧
      (∀ r, e.active = some r → r.ledger.Coherent r.plan ∧ r.current.Coherent ∧
        ∀ answer text, r.phase = .asking .directAnswer answer →
          (r.answerDirectly text).plan = some .empty ∧ (r.answerDirectly text).ledger.total = 0 ∧
            (r.answerDirectly text).ledger.counts = (0, 0, 0)) ∧
      ∀ e', Step s e e' → e'.CollisionFree → Publishes e e' := by
  obtain ⟨hsound, hfree⟩ := h.sound
  refine ⟨hsound.bus, hsound.history, fun r hactive => ?_, fun e' hstep hfree' => ?_⟩
  · have hcoherent := (hsound.run hactive).coherent (hfree r hactive)
    have hshows : r.current.Shows r.plan r.ledger := Run.state_shows _ _ _ _
    exact ⟨hcoherent, hshows.coherent hcoherent, fun answer text hphase =>
      (hsound.run hactive).answerDirectly_empty hphase text⟩
  · exact (hstep.publishes hfree hfree' hsound.run).1

-- ---------------------------------------------------------------------------
-- A run with a replan, cancelled afterwards
-- ---------------------------------------------------------------------------

instance : DecidablePred (CollisionFree (σ := σ)) := fun e =>
  decidable_of_iff (e.active.all (fun r => decide r.planOrEmpty.CollisionFree) = true) (by
    unfold CollisionFree
    cases e.active <;> simp)

/-- What an engine does right now by itself, if it can go on. -/
def step? (s : Services σ) (e : Engine σ) : Option (Engine σ) :=
  match e.active with
  | none => none
  | some r =>
    match r.phase with
    | .over error => some (e.finish r error)
    | _ => (r.step? s e.around).map e.goOn

/-- A number of such steps without collisions. -/
def steps? (s : Services σ) : Nat → Engine σ → Option (Engine σ)
  | 0, e => some e
  | n + 1, e =>
    match e.step? s with
    | none => none
    | some e' => if e'.CollisionFree then steps? s n e' else none

/-- The step the engine takes by itself is one of its steps. -/
theorem step_of_step? {e' : Engine σ} (h : e.step? s = some e') : Step s e e' := by
  unfold step? at h
  split at h
  · exact absurd h (by simp)
  · rename_i r hactive
    split at h
    · rename_i error hphase
      rw [← Option.some.inj h]
      exact .finish hactive hphase
    · obtain ⟨x, hx, rfl⟩ := Option.map_eq_some_iff.mp h
      exact .run hactive (Run.step_of_step? hx)

/-- So are any number of them. -/
theorem reaches_of_steps? {n : Nat} {e e' : Engine σ} (h : e.steps? s n = some e') :
    Reaches s e e' := by
  induction n generalizing e with
  | zero =>
    obtain rfl := Option.some.inj h
    exact .refl
  | succ n ih =>
    unfold steps? at h
    split at h
    · exact absurd h (by simp)
    · rename_i e₁ hstep
      split at h
      · rename_i hfree
        exact .head ⟨step_of_step? hstep, hfree⟩ (ih h)
      · exact absurd h (by simp)

/-- A run that is accepted, takes some steps, is cancelled, and takes some more. -/
def cancelled? (s : Services σ) (e : Engine σ) (query : String) (before after : Nat) :
    Option (Engine σ) :=
  match e.accept query .empty with
  | .error _ => none
  | .ok e =>
    if e.CollisionFree then
      match e.steps? s before with
      | none => none
      | some e => if e.cancel.2.CollisionFree then e.cancel.2.steps? s after else none
    else none

/-- A run that is cancelled between its steps is reached by steps. -/
theorem reaches_of_cancelled? {e e' : Engine σ} {query : String} {before after : Nat}
    (h : e.cancelled? s query before after = some e') : Reaches s e e' := by
  unfold cancelled? at h
  split at h
  · exact absurd h (by simp)
  · rename_i e₁ haccept
    split at h
    · rename_i hfree₁
      split at h
      · exact absurd h (by simp)
      · rename_i e₂ hbefore
        split at h
        · rename_i hfree₂
          have hfirst : Reaches s e e₁ := .single ⟨.accept haccept, hfree₁⟩
          have hsecond := hfirst.trans (reaches_of_steps? hbefore)
          exact (hsecond.tail ⟨.cancel, hfree₂⟩).trans (reaches_of_steps? h)
        · exact absurd h (by simp)
    · exact absurd h (by simp)

/-- The replies to the questions of a run: a root with a child that fails, a replan of the
child, and a verdict. -/
def echoReply : Task → Json
  | .planCreation => .arr [Plan.callJson "echo" "say" [Plan.callJson "echo" "fail" []]]
  | .retryStrategy => .obj [("action", .str "replan"), ("node_id", .str "n-27e79ac30ba46fa4"),
      ("subtree", Plan.callJson "echo" "say" [Plan.callJson "echo" "say" []])]
  | .evaluation => .obj [("sufficient", .bool true)]
  | .directAnswerCheck => .null
  | .directAnswerGeneration => .null
  | .parameterExtraction => .null

def echoServices : Services Unit where
  registry := Traversal.echoDispatch.registry
  createClient := fun task world =>
    (.ok ⟨"", "", 0, fun _ world => (⟨0, .ok (echoReply task).compact⟩, world)⟩, world)
  rules := fun _ => none
  settings := { Settings.standard with directAnswer := false }

/-- One of two nodes fails and is replaced by two, of which none has started when the run
is cancelled. -/
theorem published_coherent_echo :
    ∃ e, Reaches echoServices (.start echoServices.settings .empty () 0) e ∧
      e.around.bus.kept.map (fun x => (x.total, x.completed, x.failed, x.running)) =
        [(0, 0, 0, 0), (2, 0, 0, 0), (2, 0, 0, 1), (2, 1, 0, 0), (2, 1, 0, 1), (2, 1, 1, 0),
          (3, 1, 0, 0), (3, 1, 0, 0)] ∧
      e.history.entries.map (fun entry => entry.result.ledger.counts) = [(1, 0, 0)] ∧
      (∀ x ∈ e.around.bus.kept, x.Coherent) ∧ ∀ entry ∈ e.history.entries, entry.Coherent := by
  have hrun : ((Engine.start echoServices.settings .empty () 0).cancelled? echoServices "q" 8 3).any
      (fun e => decide (e.around.bus.kept.map (fun x => (x.total, x.completed, x.failed, x.running)) =
        [(0, 0, 0, 0), (2, 0, 0, 0), (2, 0, 0, 1), (2, 1, 0, 0), (2, 1, 0, 1), (2, 1, 1, 0),
          (3, 1, 0, 0), (3, 1, 0, 0)] ∧
        e.history.entries.map (fun entry => entry.result.ledger.counts) = [(1, 0, 0)])) = true := by
    decide +kernel
  obtain ⟨e, hend, htest⟩ := (Option.any_eq_true _ _).mp hrun
  obtain ⟨hbus, hhistory⟩ := of_decide_eq_true htest
  have hreaches := reaches_of_cancelled? hend
  obtain ⟨hstates, hentries, -, -⟩ := published_coherent hreaches
  exact ⟨e, hreaches, hbus, hhistory, hstates, hentries⟩

end Engine

end PlanRunner
