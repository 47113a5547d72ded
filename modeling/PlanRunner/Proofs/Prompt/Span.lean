import PlanRunner.Proofs.Prompt.Scan

/-!
# PlanRunner — JSON in running text

The search for a payload tries one span for each opening bracket. Since the scan ends where an array
or an object does, the span is the only candidate there: no part of the text that is read as an
array or an object is missed, and the first one is found. Reading the whole text first makes no
difference, nor does the white space around it.

* `Text.trimChars_append`, `Text.exists_trimChars` — what trimming keeps and drops;
* `Accepted`, `StartsWith`, `FirstAccepted` — what is read where in a text;
* `spanned?_eq_some_iff` — the search finds the first array or object that is read;
* `payload?_first` — what a payload of a reply without fences is, and what it means that there is
  none.
-/

namespace PlanRunner

-- ---------------------------------------------------------------------------
-- Trimming
-- ---------------------------------------------------------------------------

namespace Text

/-- Trimming stops at a character that is not blank. -/
theorem trimStartChars_append {c : Char} (hc : isBlankChar c = false) (lead rest : List Char) :
    trimStartChars (lead ++ c :: rest) = trimStartChars lead ++ c :: rest := by
  induction lead with
  | nil => simp [trimStartChars, hc]
  | cons d lead ih =>
    unfold trimStartChars at ih ⊢
    rw [List.cons_append, List.dropWhile_cons, List.dropWhile_cons]
    split
    · exact ih
    · rfl

/-- So it does from behind. -/
theorem trimEndChars_append {c : Char} (hc : isBlankChar c = false) (front trail : List Char) :
    trimEndChars (front ++ c :: trail) = front ++ c :: trimEndChars trail := by
  have hstart := trimStartChars_append hc trail.reverse front.reverse
  unfold trimStartChars at hstart
  have hreverse : (front ++ c :: trail).reverse = trail.reverse ++ c :: front.reverse := by simp
  rw [trimEndChars, trimEndChars, hreverse, hstart]
  simp

/-- Between two characters that are no white space nothing is trimmed. -/
theorem trimChars_append {c d : Char} (hc : isBlankChar c = false)
    (hd : isBlankChar d = false) (lead middle trail : List Char) :
    trimChars (lead ++ c :: (middle ++ d :: trail)) =
      trimStartChars lead ++ c :: (middle ++ d :: trimEndChars trail) := by
  have hend := trimEndChars_append hd (trimStartChars lead ++ c :: middle) trail
  rw [trimChars, trimStartChars_append hc]
  simpa using hend

/-- Trimming drops white space only. -/
theorem exists_trimChars (cs : List Char) :
    ∃ lead trail, cs = lead ++ (trimChars cs ++ trail) ∧
      (∀ c ∈ lead, isBlankChar c = true) ∧ ∀ c ∈ trail, isBlankChar c = true := by
  have hlead := (List.takeWhile_append_dropWhile (p := isBlankChar) (l := cs)).symm
  have htrail := congrArg List.reverse (List.takeWhile_append_dropWhile (p := isBlankChar)
    (l := (trimStartChars cs).reverse)).symm
  rw [List.reverse_append, List.reverse_reverse] at htrail
  refine ⟨_, _, hlead.trans (congrArg (cs.takeWhile isBlankChar ++ ·) htrail),
    fun _ => List.mem_takeWhile_imp, fun c hc => ?_⟩
  exact List.mem_takeWhile_imp (List.mem_reverse.mp hc)

end Text

namespace Extraction

open Json

-- ---------------------------------------------------------------------------
-- Accepted texts
-- ---------------------------------------------------------------------------

/-- A whole text is read as this array or object. -/
def Accepted (cs : List Char) (json : Json) : Prop :=
  parse? cs = some json ∧ json.isContainer = true

/-- From its first bracket on, a text starts with one that is read as this array or object. -/
def StartsWith (cs : List Char) (json : Json) : Prop :=
  ∃ span after, cs = span ++ after ∧ (∃ c ∈ span.head?, opensValue c = true) ∧ Accepted span json

/-- The first place from which a text starts with an array or an object that is read, and its
value. -/
def FirstAccepted (cs : List Char) (json : Json) : Prop :=
  ∃ before rest, cs = before ++ rest ∧ StartsWith rest json ∧
    ∀ earlier rest', cs = earlier ++ rest' → earlier.length < before.length →
      ∀ json', ¬ StartsWith rest' json'

/-- A payload is the text of a container with white space around it. -/
theorem accepted_iff {cs : List Char} {json : Json} :
    Accepted cs json ↔
      ∃ start text stop, cs = start ++ (text ++ stop) ∧ IsGap start ∧ ContainerText json text ∧
        IsGap stop := by
  constructor
  · rintro ⟨hparse, hcontainer⟩
    exact (parse?_eq_some_iff_containerText hcontainer).mp hparse
  · intro h
    have hcontainer : json.isContainer = true := by
      obtain ⟨_, _, _, _, _, htext, _⟩ := h
      exact htext.isContainer
    exact ⟨(parse?_eq_some_iff_containerText hcontainer).mpr h, hcontainer⟩

/-- White space opens nothing. -/
theorem not_opens_of_isGap {c : Char} (h : isGap c = true) : opensValue c = false :=
  (Scan.isQuiet_iff.mp (Scan.isQuiet_of_isGap h)).2.1

/-- White space is no part of what a text starts with. -/
theorem startsWith_iff {cs : List Char} {json : Json} :
    StartsWith cs json ↔ ∃ text after, cs = text ++ after ∧ ContainerText json text := by
  constructor
  · rintro ⟨span, after, rfl, ⟨c, hc, hopens⟩, haccepted⟩
    obtain ⟨start, text, stop, rfl, hstart, htext, -⟩ := accepted_iff.mp haccepted
    -- a payload at this place begins with its bracket, so there is no white space before it
    cases start with
    | nil => exact ⟨text, stop ++ after, by simp, htext⟩
    | cons d start =>
      obtain rfl := Option.some.inj hc
      exact absurd hopens (by simp [not_opens_of_isGap (hstart d List.mem_cons_self)])
  · rintro ⟨text, after, rfl, htext⟩
    obtain ⟨opening, inner, rfl, hopens, -⟩ := Scan.bracketed_of_containerText htext
    exact ⟨_, after, rfl, ⟨opening, rfl, hopens⟩, htext.parse?, htext.isContainer⟩

/-- Wherever an accepted text stands, one starts from a bracket. -/
theorem exists_startsWith {cs sub : List Char} {json : Json} (hsub : sub <:+: cs)
    (h : Accepted sub json) : ∃ rest, rest <:+ cs ∧ StartsWith rest json := by
  obtain ⟨before, after, rfl⟩ := hsub
  obtain ⟨start, text, stop, rfl, -, htext, -⟩ := accepted_iff.mp h
  refine ⟨text ++ (stop ++ after), ⟨before ++ start, by simp⟩, startsWith_iff.mpr ?_⟩
  exact ⟨text, stop ++ after, rfl, htext⟩

/-- Where a payload starts there is one in the text. -/
theorem StartsWith.exists_accepted {cs rest : List Char} {json : Json} (h : StartsWith rest json)
    (hrest : rest <:+ cs) : ∃ sub, sub <:+: cs ∧ Accepted sub json := by
  obtain ⟨before, rfl⟩ := hrest
  obtain ⟨span, after, rfl, -, haccepted⟩ := h
  exact ⟨span, ⟨before, after, by simp⟩, haccepted⟩

/-- No payload starts at the end. -/
theorem not_startsWith_nil (json : Json) : ¬ StartsWith [] json := by
  rintro ⟨span, after, heq, ⟨c, hc, -⟩, -⟩
  obtain ⟨rfl, -⟩ := List.append_eq_nil_iff.mp heq.symm
  exact absurd hc (by simp)

/-- The first place is the front of the text, or nothing starts there and it is the first place of
the rest. -/
theorem firstAccepted_cons {c : Char} {cs : List Char} {json : Json} :
    FirstAccepted (c :: cs) json ↔
      StartsWith (c :: cs) json ∨ (∀ json', ¬ StartsWith (c :: cs) json') ∧ FirstAccepted cs json := by
  -- the first payload starts here, or it is the first of what is left
  constructor
  · rintro ⟨before, rest, heq, hstarts, hfirst⟩
    cases before with
    | nil => exact .inl (heq ▸ hstarts)
    | cons d before =>
      obtain ⟨rfl, rfl⟩ := List.cons.inj heq
      refine .inr ⟨hfirst [] _ rfl (by simp), before, rest, rfl, hstarts, ?_⟩
      intro earlier rest' heq' hlt
      exact hfirst (c :: earlier) rest' (by rw [heq']; rfl) (by simpa using hlt)
  · rintro (hstarts | ⟨hnone, before, rest, rfl, hstarts, hfirst⟩)
    · exact ⟨[], c :: cs, rfl, hstarts, fun _ _ _ hlt => absurd hlt (by simp)⟩
    · refine ⟨c :: before, rest, rfl, hstarts, fun earlier rest' heq hlt => ?_⟩
      cases earlier with
      | nil =>
        obtain rfl : c :: (before ++ rest) = rest' := heq
        exact hnone
      | cons d earlier =>
        exact hfirst earlier rest' (List.cons.inj heq).2 (by simpa using hlt)

-- ---------------------------------------------------------------------------
-- The search for a span
-- ---------------------------------------------------------------------------

/-- What the search finds at the front of a text. -/
def here? (cs : List Char) : Option Json :=
  match cs with
  | [] => none
  | c :: _ => if opensValue c then (balanced? cs).bind fun span => parse? span else none

/-- A span starts here or further on. -/
theorem spanned?_cons (c : Char) (cs : List Char) :
    spanned? (c :: cs) = (here? (c :: cs)).or (spanned? cs) := by
  rw [spanned?]
  cases hhere : here? (c :: cs) with
  | none =>
    rw [here?] at hhere
    rw [hhere]
    rfl
  | some json =>
    rw [here?] at hhere
    rw [hhere]
    rfl

/-- A value that starts with an opening bracket is an array or an object. -/
theorem isContainer_of_opens {c : Char} {cs : List Char} {json : Json}
    (hopens : opensValue c = true) (h : parse? (c :: cs) = some json) : json.isContainer = true := by
  obtain ⟨written, hwritten, rfl⟩ := Option.map_eq_some_iff.mp h
  obtain ⟨start, text, stop, hcs, hstart, htext, -⟩ := parseWritten?_eq_some_iff.mp hwritten
  rw [isContainer_sorted]
  -- the text starts with the bracket, and only containers do
  cases start with
  | cons d start =>
    obtain ⟨rfl, -⟩ := List.cons.inj hcs
    exact absurd hopens (by simp [not_opens_of_isGap (hstart c List.mem_cons_self)])
  | nil =>
    cases htext with
    | noElems | elems | noFields | fields => rfl
    | number htext =>
      obtain ⟨d, tail, rfl⟩ := List.exists_cons_of_ne_nil htext.ne_nil
      obtain ⟨rfl, -⟩ := List.cons.inj hcs
      have hquiet := Scan.isQuiet_of_isNumeric (htext.numeric c List.mem_cons_self)
      exact absurd hopens (by simp [(Scan.isQuiet_iff.mp hquiet).2.1])
    | null | true | false | str =>
      obtain ⟨rfl, -⟩ := List.cons.inj hcs
      exact absurd hopens (by decide)

theorem parse?_nil : parse? [] = none := rfl

/-- The span that starts here is a payload exactly when one starts here. -/
theorem here?_eq_some_iff {cs : List Char} {json : Json} :
    here? cs = some json ↔ StartsWith cs json := by
  -- the span is the payload's own text, as the scan of a container closes where it ends
  constructor
  · intro h
    unfold here? at h
    split at h
    · exact absurd h (by simp)
    · rename_i c tail
      split at h
      · rename_i hopens
        obtain ⟨span, hspan, hparse⟩ := Option.bind_eq_some_iff.mp h
        obtain ⟨after, hafter⟩ := prefix_of_closeSpan hspan
        cases span with
        | nil => exact absurd (parse?_nil.symm.trans hparse) (by simp)
        | cons d span =>
          obtain ⟨rfl, rfl⟩ := List.cons.inj hafter
          exact ⟨d :: span, after, rfl, ⟨d, rfl, hopens⟩, hparse, isContainer_of_opens hopens hparse⟩
      · exact absurd h (by simp)
  · intro h
    obtain ⟨text, after, rfl, htext⟩ := startsWith_iff.mp h
    have hbracketed := Scan.bracketed_of_containerText htext
    have hbalanced := balanced?_append hbracketed after
    obtain ⟨opening, inner, rfl, hopens, -⟩ := hbracketed
    rw [List.cons_append] at hbalanced
    rw [List.cons_append, here?, if_pos hopens, hbalanced]
    exact htext.parse?

/-- No payload starts here when the span is none. -/
theorem here?_eq_none_iff {cs : List Char} :
    here? cs = none ↔ ∀ json, ¬ StartsWith cs json := by
  rw [Option.eq_none_iff_forall_ne_some]
  exact forall_congr' fun json => not_congr here?_eq_some_iff

/-- **The search finds the first array or object that is read.** -/
theorem spanned?_eq_some_iff {cs : List Char} {json : Json} :
    spanned? cs = some json ↔ FirstAccepted cs json := by
  induction cs with
  | nil =>
    refine ⟨fun h => absurd h (by simp [spanned?]), ?_⟩
    rintro ⟨before, rest, heq, hstarts, -⟩
    obtain ⟨-, rfl⟩ := List.append_eq_nil_iff.mp heq.symm
    exact absurd hstarts (not_startsWith_nil json)
  | cons c cs ih =>
    rw [spanned?_cons, Option.or_eq_some_iff, firstAccepted_cons, here?_eq_some_iff,
      here?_eq_none_iff, ih]

/-- The search finds nothing exactly if no array or object that is read starts anywhere. -/
theorem spanned?_eq_none_iff {cs : List Char} :
    spanned? cs = none ↔ ∀ rest json, rest <:+ cs → ¬ StartsWith rest json := by
  -- no payload starts here, and none further on
  induction cs with
  | nil =>
    refine ⟨fun _ rest json hrest => ?_, fun _ => rfl⟩
    rw [List.suffix_nil.mp hrest]
    exact not_startsWith_nil json
  | cons c cs ih =>
    rw [spanned?_cons, Option.or_eq_none_iff, here?_eq_none_iff, ih]
    constructor
    · rintro ⟨hhere, hrest⟩ rest json hsuffix
      rcases List.suffix_cons_iff.mp hsuffix with rfl | hsuffix
      · exact hhere json
      · exact hrest rest json hsuffix
    · intro h
      exact ⟨fun json => h _ json List.suffix_rfl,
        fun rest json hsuffix => h rest json (hsuffix.trans (List.suffix_cons c cs))⟩

-- ---------------------------------------------------------------------------
-- White space around a reply
-- ---------------------------------------------------------------------------

/-- A text in front that opens nothing has no payload. -/
theorem spanned?_append_left {lead : List Char} (h : ∀ c ∈ lead, opensValue c = false)
    (cs : List Char) : spanned? (lead ++ cs) = spanned? cs := by
  induction lead with
  | nil => rfl
  | cons c lead ih =>
    have hhere : here? (c :: (lead ++ cs)) = none :=
      if_neg (by simp [h c List.mem_cons_self])
    rw [List.cons_append, spanned?_cons, hhere, Option.none_or]
    exact ih fun d hd => h d (List.mem_cons_of_mem c hd)

/-- A text behind without brackets adds no payload. -/
theorem spanned?_append_right {trail : List Char}
    (h : ∀ c ∈ trail, opensValue c = false ∧ closesValue c = false) (cs : List Char) :
    spanned? (cs ++ trail) = spanned? cs := by
  induction cs with
  | nil =>
    have hnil := spanned?_append_left (fun c hc => (h c hc).1) []
    rwa [List.append_nil] at hnil
  | cons c cs ih =>
    have hbalanced : balanced? (c :: (cs ++ trail)) = balanced? (c :: cs) :=
      closeSpan_append (fun c hc => (h c hc).2) _ (c :: cs)
    rw [List.cons_append, spanned?_cons, spanned?_cons, ih, here?, here?, hbalanced]

/-- Brackets that open are no white space. -/
theorem isBlankChar_of_opens {c : Char} (h : opensValue c = true) : Text.isBlankChar c = false := by
  rcases opensValue_iff.mp h with rfl | rfl
  · decide
  · decide

/-- Brackets that close are no white space. -/
theorem isBlankChar_of_closes {c : Char} (h : closesValue c = true) :
    Text.isBlankChar c = false := by
  rcases closesValue_iff.mp h with rfl | rfl
  · decide
  · decide

/-- White space has no brackets. -/
theorem brackets_of_isBlankChar {c : Char} (h : Text.isBlankChar c = true) :
    opensValue c = false ∧ closesValue c = false := by
  rw [Bool.eq_false_iff, Bool.eq_false_iff]
  exact ⟨fun hopens => absurd h (by simp [isBlankChar_of_opens hopens]),
    fun hcloses => absurd h (by simp [isBlankChar_of_closes hcloses])⟩

/-- Trimming a text does not change what spans it has. -/
theorem spanned?_trimChars (cs : List Char) : spanned? (Text.trimChars cs) = spanned? cs := by
  obtain ⟨lead, trail, hcs, hlead, htrail⟩ := Text.exists_trimChars cs
  conv_rhs => rw [hcs]
  rw [spanned?_append_left fun c hc => (brackets_of_isBlankChar (hlead c hc)).1,
    spanned?_append_right fun c hc => brackets_of_isBlankChar (htrail c hc)]

/-- The search comes to the same as reading the whole text, where that is possible. -/
theorem spanned?_of_accepted {cs : List Char} {json : Json} (h : Accepted cs json) :
    spanned? cs = some json := by
  obtain ⟨start, text, stop, rfl, hstart, htext, -⟩ := accepted_iff.mp h
  rw [spanned?_append_left fun c hc => not_opens_of_isGap (hstart c hc)]
  obtain ⟨opening, inner, rfl, -⟩ := Scan.bracketed_of_containerText htext
  have hhere := here?_eq_some_iff.mpr (startsWith_iff.mpr ⟨_, stop, rfl, htext⟩)
  rw [List.cons_append] at hhere ⊢
  rw [spanned?_cons, hhere, Option.some_or]

-- ---------------------------------------------------------------------------
-- The payload of a reply
-- ---------------------------------------------------------------------------

/-- A text without a fence is not split. -/
theorem splitFence_eq_none {cs : List Char} (h : ¬ fence <:+: cs) : splitFence cs = none := by
  induction cs with
  | nil => rfl
  | cons c cs ih =>
    have hprefix : ¬ fence.isPrefixOf (c :: cs) = true := fun hp =>
      h (List.isPrefixOf_iff_prefix.mp hp).isInfix
    rw [splitFence, if_neg hprefix, ih fun hin => h (hin.trans (List.suffix_cons c cs).isInfix),
      Option.map_none]

/-- The whole text is a payload exactly when it is read as a container. -/
theorem whole?_eq_some_iff {cs : List Char} {json : Json} :
    whole? cs = some json ↔ Accepted cs json := by
  unfold whole? Accepted
  cases parse? cs with
  | none => simp
  | some json' =>
    dsimp only
    split
    · rename_i hcontainer
      refine ⟨?_, fun h => h.1⟩
      rintro ⟨⟩
      exact ⟨rfl, hcontainer⟩
    · rename_i hcontainer
      refine ⟨fun h => absurd h (by simp), ?_⟩
      rintro ⟨⟨⟩, hcontainer'⟩
      exact absurd hcontainer' hcontainer

/-- A payload is looked for in the whole text, then behind fences, then as a span. -/
theorem payloadChars?_eq (cs : List Char) :
    payloadChars? cs =
      ((whole? (Text.trimChars cs)).or
        (fenced? ((Text.trimChars cs).length + 1) (Text.trimChars cs))).or (spanned? cs) := by
  rw [← spanned?_trimChars cs, payloadChars?]
  cases whole? (Text.trimChars cs) with
  | some json => rfl
  | none =>
    cases fenced? ((Text.trimChars cs).length + 1) (Text.trimChars cs) with
    | some json => simp
    | none => simp

/-- Without a fence there is no body to look at. -/
theorem fenced?_eq_none {cs : List Char} (h : ¬ fence <:+: cs) (fuel : Nat) :
    fenced? fuel cs = none := by
  cases fuel with
  | zero => rfl
  | succ fuel => rw [fenced?, splitFence_eq_none h]

/-- Without a fence only the search for a span counts. -/
theorem payloadChars?_of_no_fence {cs : List Char} (h : ¬ fence <:+: cs) :
    payloadChars? cs = spanned? cs := by
  have htrim : ¬ fence <:+: Text.trimChars cs := by
    obtain ⟨lead, trail, hcs, -⟩ := Text.exists_trimChars cs
    exact fun hin => h (hin.trans ⟨lead, trail, by rw [List.append_assoc, ← hcs]⟩)
  rw [payloadChars?_eq, fenced?_eq_none htrim, Option.or_none]
  cases hwhole : whole? (Text.trimChars cs) with
  | none => rfl
  | some json =>
    rw [← spanned?_trimChars, spanned?_of_accepted (whole?_eq_some_iff.mp hwhole), Option.some_or]

/-- Where no span is found no part of the text is a payload. -/
theorem not_accepted_of_spanned?_eq_none {cs sub : List Char} (h : spanned? cs = none)
    (hsub : sub <:+: cs) (json : Json) : ¬ Accepted sub json := by
  intro haccepted
  obtain ⟨rest, hrest, hstarts⟩ := exists_startsWith hsub haccepted
  exact spanned?_eq_none_iff.mp h rest json hrest hstarts

/-- **A reply without a payload has no part that is read as an array or an object. In a reply
without a fence there is a payload exactly if there is such a part, and it is the first one.** -/
theorem payload?_first (s : String) :
    (payload? s = none → ∀ sub json, sub <:+: s.toList → ¬ Accepted sub json) ∧
      (¬ fence <:+: s.toList →
        ((payload? s).isSome = true ↔ ∃ sub json, sub <:+: s.toList ∧ Accepted sub json) ∧
        ∀ json, payload? s = some json ↔ FirstAccepted s.toList json) := by
  refine ⟨fun h sub json hsub => ?_, fun hfence => ?_⟩
  · rw [payload?, payloadChars?_eq, Option.or_eq_none_iff] at h
    exact not_accepted_of_spanned?_eq_none h.2 hsub json
  · rw [payload?, payloadChars?_of_no_fence hfence]
    refine ⟨?_, fun json => spanned?_eq_some_iff⟩
    constructor
    · intro h
      obtain ⟨json, hjson⟩ := Option.isSome_iff_exists.mp h
      obtain ⟨before, rest, heq, hstarts, -⟩ := spanned?_eq_some_iff.mp hjson
      obtain ⟨sub, hsub, haccepted⟩ := hstarts.exists_accepted ⟨before, heq.symm⟩
      exact ⟨sub, json, hsub, haccepted⟩
    · rintro ⟨sub, json, hsub, haccepted⟩
      rw [Option.isSome_iff_ne_none]
      exact fun hnone => not_accepted_of_spanned?_eq_none hnone hsub json haccepted

/-- Braces and an open quote before the payload, a brace, a quote and a letter of two bytes in its
string, and a bracket after it. -/
theorem payload?_first_among_braces :
    let reply := "\x7bé\x7d \"[: \x7b\"a\": \"\x7d \\\" ü]\"\x7d ]"
    ¬ fence <:+: reply.toList ∧
      ∃ json, FirstAccepted reply.toList json ∧
        (json.get? "a").bind Json.str? = some "\x7d \" ü]" := by
  intro reply
  have hfence : ¬ fence <:+: reply.toList := by decide +kernel
  have hfield : ((payload? reply).bind fun json => (json.get? "a").bind Json.str?) =
      some "\x7d \" ü]" := by decide +kernel
  obtain ⟨json, hjson, ha⟩ := Option.bind_eq_some_iff.mp hfield
  exact ⟨hfence, json, (((payload?_first reply).2 hfence).2 json).mp hjson, ha⟩

end Extraction

end PlanRunner
