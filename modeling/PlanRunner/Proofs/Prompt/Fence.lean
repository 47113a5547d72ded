import PlanRunner.Prompt.Reply
import PlanRunner.Proofs.Prompt.Span

/-!
# PlanRunner — JSON between fences

A body between two fences is the payload of a reply, even if the text before it has JSON of its own.
Three things have to be seen: the reply as a whole is no JSON, because a fence after a body cannot
stand in a string; the first fence may be found early, but only the rest of the line is lost by
that; and the second one is found where it is, because it starts a line.

* `trimChars_fencedReply` — trimming leaves fences and body alone;
* `splitFence_append`, `splitFence_line` — where the fences are found;
* `whole?_fencedReply` — with a body that is JSON the reply is none;
* `payload?_fenced` — the body is the payload, and a plan is read from it.
-/

namespace PlanRunner.Extraction

open Json

-- ---------------------------------------------------------------------------
-- Trimming
-- ---------------------------------------------------------------------------

/-- JSON's white space is white space. -/
theorem isBlankChar_of_isGap {c : Char} (h : isGap c = true) : Text.isBlankChar c = true := by
  rcases isGap_iff.mp h with rfl | rfl | rfl | rfl <;> decide

/-- The white space around the text of an array or an object is trimmed. -/
theorem trimChars_of_bracketed {start text stop : List Char} (hstart : IsGap start)
    (htext : Scan.Bracketed text) (hstop : IsGap stop) :
    Text.trimChars (start ++ (text ++ stop)) = text := by
  obtain ⟨opening, inner, rfl, hopening, front, closing, rfl, hclosing, -⟩ := htext
  have htrim := Text.trimChars_append (isBlankChar_of_opens hopening) (isBlankChar_of_closes hclosing)
    start front stop
  have hlead : Text.trimStartChars start = [] :=
    List.dropWhile_eq_nil_iff.mpr fun c hc => isBlankChar_of_isGap (hstart c hc)
  have htrail : Text.trimEndChars stop = [] :=
    List.rdropWhile_eq_nil_iff.mpr fun c hc => isBlankChar_of_isGap (hstop c hc)
  rw [hlead, htrail] at htrim
  simpa using htrim

-- ---------------------------------------------------------------------------
-- Where the fences are
-- ---------------------------------------------------------------------------

/-- A text with a body between fences, on lines of its own. -/
def fencedReply (before info body after : List Char) : List Char :=
  before ++ (fence ++ (info ++ '\n' :: (body ++ '\n' :: (fence ++ after))))

/-- Trimming a reply with a fence trims what is before and after it. -/
theorem trimChars_fencedReply (before info body after : List Char) :
    Text.trimChars (fencedReply before info body after) =
      fencedReply (Text.trimStartChars before) info body (Text.trimEndChars after) := by
  have htick : Text.isBlankChar '`' = false := by decide
  have htrim := Text.trimChars_append htick htick before
    ('`' :: '`' :: (info ++ '\n' :: (body ++ ['\n', '`', '`']))) after
  simpa [fencedReply, fence] using htrim

theorem splitFence_fence (rest : List Char) : splitFence (fence ++ rest) = some ([], rest) := rfl

/-- The first fence is found up to two characters early, if the text before it ends with backticks. -/
theorem splitFence_append {before : List Char} (h : ¬ fence <:+: before) (rest : List Char) :
    ∃ front ticks, splitFence (before ++ (fence ++ rest)) = some (front, ticks ++ rest) ∧
      ∀ c ∈ ticks, c = '`' := by
  -- induction on the text before the fence, which may end in backticks of its own
  induction before with
  | nil => exact ⟨[], [], splitFence_fence rest, by simp⟩
  | cons c before ih =>
    by_cases hprefix : fence.isPrefixOf (c :: (before ++ (fence ++ rest))) = true
    · -- the text before the fence is one or two backticks, and these are left over
      obtain hfence | ⟨tail, htail⟩ := List.prefix_or_prefix_of_prefix
        (List.isPrefixOf_iff_prefix.mp hprefix) (List.prefix_append (c :: before) (fence ++ rest))
      · exact absurd hfence.isInfix h
      · have hticks : ∀ d ∈ c :: before, d = '`' := by
          intro d hd
          have hmem : d ∈ fence := htail ▸ List.mem_append_left tail hd
          simpa [fence] using hmem
        have hcomm : c :: before ++ fence = fence ++ c :: before := by
          rw [List.eq_replicate_of_mem hticks, show fence = List.replicate 3 '`' from rfl,
            List.replicate_append_replicate, List.replicate_append_replicate, Nat.add_comm]
        refine ⟨[], c :: before, ?_, hticks⟩
        rw [← List.append_assoc, hcomm, List.append_assoc]
        exact splitFence_fence (c :: before ++ rest)
    · obtain ⟨front, ticks, hsplit, hticks⟩ :=
        ih fun hin => h (hin.trans (List.suffix_cons c before).isInfix)
      refine ⟨c :: front, ticks, ?_, hticks⟩
      rw [List.cons_append, splitFence, if_neg hprefix, hsplit, Option.map_some]

/-- At the start of a line the first fence is found where it is. -/
theorem splitFence_line {line : List Char} (h : ¬ fence <:+: line) (rest : List Char) :
    splitFence (line ++ '\n' :: (fence ++ rest)) = some (line ++ ['\n'], rest) := by
  -- the line feed keeps the end of the line apart from the fence
  induction line with
  | nil =>
    rfl
  | cons c line ih =>
    have hprefix : ¬ fence.isPrefixOf (c :: (line ++ '\n' :: (fence ++ rest))) = true := by
      intro hprefix
      have hwhole := List.isPrefixOf_iff_prefix.mp hprefix
      obtain hfence | ⟨tail, htail⟩ :=
        List.prefix_or_prefix_of_prefix hwhole (List.prefix_append (c :: line) _)
      · exact h hfence.isInfix
      · -- a fence that starts in the line and ends after it has the line feed in it
        cases tail with
        | nil =>
          rw [List.append_nil] at htail
          exact h (htail ▸ List.infix_rfl)
        | cons d tail =>
          have hfeed : '\n' ∈ fence := by
            rw [← htail, ← List.cons_append, List.prefix_append_right_inj,
              List.cons_prefix_cons] at hwhole
            rw [← htail, ← hwhole.1]
            simp
          exact absurd hfeed (by decide)
    rw [List.cons_append, splitFence, if_neg hprefix,
      ih fun hin => h (hin.trans (List.suffix_cons c line).isInfix), Option.map_some]
    rfl

/-- The rest of a line is skipped up to its line feed. -/
theorem afterInfo_append {info : List Char} (h : '\n' ∉ info) (rest : List Char) :
    afterInfo (info ++ '\n' :: rest) = rest := by
  have hdrop : (info ++ '\n' :: rest).dropWhile (· != '\n') = '\n' :: rest := by
    refine dropWhile_append_of_head (fun c hc => ?_) fun c hc => ?_
    · rw [bne_iff_ne]
      exact fun heq => h (heq ▸ hc)
    · obtain rfl := Option.some.inj hc
      rfl
  rw [afterInfo, hdrop]

-- ---------------------------------------------------------------------------
-- The whole text is no JSON
-- ---------------------------------------------------------------------------

/-- The scan of a payload meets no line feed in a string, and ends outside. -/
theorem Scan.goes_tidy_of_accepted {cs : List Char} {json : Json} (h : Accepted cs json)
    (depth : Nat) : Goes Tidy (outside depth) cs (outside depth) := by
  obtain ⟨start, text, stop, rfl, hstart, htext, hstop⟩ := accepted_iff.mp h
  have hgap : ∀ {gap : List Char}, IsGap gap → Goes Tidy (outside depth) gap (outside depth) :=
    fun hgap => (goes_gap hgap depth).mono fun h => h.1
  exact (hgap hstart).append (((bracketed_of_containerText htext).goes_tidy depth).append (hgap hstop))

/-- Only in strings there are escapes. -/
theorem Scan.escaped_step {s : Scan} (h : s.escaped = true → s.inString = true) (c : Char) :
    (s.step c).escaped = true → (s.step c).inString = true := by
  unfold Scan.step
  split_ifs <;> simp_all

/-- A scan that escapes a character is in a string. -/
theorem Scan.Goes.escaped {P : Scan → Char → Prop} {s t : Scan} {cs : List Char}
    (h : Goes P s cs t) (hs : s.escaped = true → s.inString = true) :
    t.escaped = true → t.inString = true := by
  induction cs generalizing s with
  | nil => exact (show s = t from h) ▸ hs
  | cons c cs ih => exact ih h.2 (Scan.escaped_step hs c)

/-- Before the body a line ends, so a scan is outside strings there and is so again after it, where
a fence comes. -/
theorem whole?_fencedReply {body : List Char} {json : Json} (h : Accepted body json)
    (before info after : List Char) : whole? (fencedReply before info body after) = none := by
  rw [Option.eq_none_iff_forall_ne_some]
  intro json' hwhole
  -- if the reply were JSON, the scan would go over all of it
  have hgoes := Scan.goes_tidy_of_accepted (whole?_eq_some_iff.mp hwhole) 0
  rw [fencedReply, ← List.append_assoc, ← List.append_assoc] at hgoes
  obtain ⟨s, hfront, hrest⟩ := hgoes.of_append
  have hescaped := hfront.escaped (fun h => absurd h (by simp [Scan.outside]))
  obtain ⟨depth, inString, escaped⟩ := s
  obtain rfl : inString = false := by
    rw [Bool.eq_false_iff]
    intro hin
    exact absurd hrest.1 (by simp [Scan.Tidy, hin])
  obtain rfl : escaped = false := by
    rw [Bool.eq_false_iff]
    exact fun h => absurd (hescaped h) (by simp)
  obtain ⟨t, hbody, hlast⟩ := hrest.2.of_append
  obtain rfl := (Scan.goes_tidy_of_accepted h depth).unique hbody
  have htick : Scan.Tidy (Scan.outside depth) '`' := hlast.2.1
  exact htick rfl

-- ---------------------------------------------------------------------------
-- The payload between fences
-- ---------------------------------------------------------------------------

/-- A payload is read whole from its line. -/
theorem parse?_trimChars_line {body : List Char} {json : Json} (h : Accepted body json) :
    parse? (Text.trimChars (body ++ ['\n'])) = some json := by
  obtain ⟨start, text, stop, rfl, hstart, htext, hstop⟩ := accepted_iff.mp h
  have hline : IsGap (stop ++ ['\n']) := hstop.append (by simp [IsGap, isGap])
  rw [List.append_assoc, List.append_assoc,
    trimChars_of_bracketed hstart (Scan.bracketed_of_containerText htext) hline]
  exact htext.parse?

/-- The body of a fence that is a payload is the one that is read. -/
theorem fenced?_fencedReply {before info body : List Char} {json : Json}
    (hbefore : ¬ fence <:+: before) (hinfo : '\n' ∉ info) (hbody : ¬ fence <:+: body)
    (hread : Accepted body json) (after : List Char) (fuel : Nat) :
    fenced? (fuel + 1) (fencedReply before info body after) = some json := by
  obtain ⟨front, ticks, hsplit, hticks⟩ :=
    splitFence_append hbefore (info ++ '\n' :: (body ++ '\n' :: (fence ++ after)))
  -- what is left over of the backticks belongs to the line of the first fence
  have hline : '\n' ∉ ticks ++ info := by
    rw [List.mem_append, not_or]
    exact ⟨fun hmem => absurd (hticks _ hmem) (by decide), hinfo⟩
  rw [← List.append_assoc ticks] at hsplit
  rw [fencedReply, fenced?, hsplit]
  dsimp only
  rw [afterInfo_append hline, splitFence_line hbody]
  dsimp only
  rw [parse?_trimChars_line hread]

/-- **What stands between fences is the payload, whatever is before, beside and after them.** -/
theorem payload?_fenced {before info body after : String} {json : Json}
    (hbefore : ¬ fence <:+: before.toList) (hinfo : '\n' ∉ info.toList)
    (hbody : ¬ fence <:+: body.toList) (hread : Json.ofText? body = some json)
    (hcontainer : json.isContainer = true) :
    payload? (before ++ "```" ++ info ++ "\n" ++ body ++ "\n```" ++ after) = some json ∧
      Plan.ofReply (before ++ "```" ++ info ++ "\n" ++ body ++ "\n```" ++ after) =
        Plan.ofJson json := by
  have hpayload :
      payload? (before ++ "```" ++ info ++ "\n" ++ body ++ "\n```" ++ after) = some json := by
    have htext : (before ++ "```" ++ info ++ "\n" ++ body ++ "\n```" ++ after).toList =
        fencedReply before.toList info.toList body.toList after.toList := by
      simp [fencedReply, fence]
    -- trimming the text before the fence puts no fence in it
    have htrim : ¬ fence <:+: Text.trimStartChars before.toList :=
      fun hin => hbefore (hin.trans (List.dropWhile_suffix Text.isBlankChar).isInfix)
    rw [payload?, payloadChars?_eq, htext, trimChars_fencedReply,
      whole?_fencedReply ⟨hread, hcontainer⟩,
      fenced?_fencedReply htrim hinfo hbody ⟨hread, hcontainer⟩, Option.none_or, Option.some_or]
  refine ⟨hpayload, ?_⟩
  rw [Plan.ofReply, hpayload]

/-- Before the fence a string and an object are open and two backticks stand; what follows the body
closes them and has a fenced text of its own. -/
theorem payload?_fenced_in_string :
    let before := "\x7b\"a\": [\x7b\x7d, \"``"
    let body := "\x7b\"layer\": \"echo\"\x7d"
    let after := "\"]\x7d\n```\n[]\n```"
    ∃ json, Json.ofText? body = some json ∧ (json.get? "layer").bind Json.str? = some "echo" ∧
      payload? (before ++ "```" ++ "json" ++ "\n" ++ body ++ "\n```" ++ after) = some json ∧
      Plan.ofReply (before ++ "```" ++ "json" ++ "\n" ++ body ++ "\n```" ++ after) =
        Plan.ofJson json := by
  intro before body after
  have hlayer : ((Json.ofText? body).bind fun json => (json.get? "layer").bind Json.str?) =
      some "echo" := by decide +kernel
  have hcontainer : (Json.ofText? body).map Json.isContainer = some true := by decide +kernel
  obtain ⟨json, hread, hecho⟩ := Option.bind_eq_some_iff.mp hlayer
  rw [hread] at hcontainer
  exact ⟨json, hread, hecho, payload?_fenced (by decide +kernel) (by decide +kernel)
    (by decide +kernel) hread (Option.some.inj hcontainer)⟩

end PlanRunner.Extraction
