import PlanRunner.Proofs.Prompt.Span

/-!
# PlanRunner — bare values between fences

A whole text and a span count only if they are an array or an object. What stands between fences
counts whatever it is, so a number, a string, a truth value or null there is the payload of a reply
even if an array or an object stands elsewhere. This is the only way in which a payload is no array
and no object, and the only way in which one of these is passed over.

* `fencedBodies`, `fenced?_eq_firstFenced?` — the texts between fences, of which the first that is
  JSON counts;
* `isContainer_or_fenced` — where a payload that is bare comes from;
* `payload?_bare_iff` — when a payload is bare, and that an array or an object is found otherwise;
* `exists_bare_payload` — a number between fences before a plan.
-/

namespace PlanRunner.Extraction

open Json

-- ---------------------------------------------------------------------------
-- The texts between fences
-- ---------------------------------------------------------------------------

/-- A text that is split at a fence is what comes before it, the fence, and what comes after it. -/
theorem splitFence_eq_some {cs before after : List Char} (h : splitFence cs = some (before, after)) :
    cs = before ++ (fence ++ after) := by
  -- the fence is here, or further on
  induction cs generalizing before with
  | nil => exact absurd h (by simp [splitFence])
  | cons c cs ih =>
    rw [splitFence] at h
    split at h
    · rename_i hprefix
      obtain ⟨tail, htail⟩ := List.isPrefixOf_iff_prefix.mp hprefix
      rw [← htail, List.drop_left] at h
      obtain ⟨rfl, rfl⟩ := Prod.mk.inj (Option.some.inj h)
      exact htail.symm
    · obtain ⟨⟨front, rest⟩, hsplit, heq⟩ := Option.map_eq_some_iff.mp h
      obtain ⟨rfl, rfl⟩ := Prod.mk.inj heq
      rw [ih hsplit, List.cons_append]

/-- After a fence there is less text. -/
theorem length_lt_of_splitFence {cs before after : List Char}
    (h : splitFence cs = some (before, after)) : after.length < cs.length := by
  have hfence : fence.length = 3 := rfl
  rw [splitFence_eq_some h, List.length_append, List.length_append]
  omega

/-- Skipping the rest of the line makes the text no longer. -/
theorem length_afterInfo_le (cs : List Char) : (afterInfo cs).length ≤ cs.length := by
  have hdrop := (List.dropWhile_suffix (l := cs) (· != '\n')).length_le
  unfold afterInfo
  split
  · exact Nat.le_refl _
  · rename_i rest hrest
    rw [hrest, List.length_cons] at hdrop
    omega

/-- Each round passes two fences. -/
theorem length_lt_of_closed {cs before after body rest : List Char}
    (hopened : splitFence cs = some (before, after))
    (hclosed : splitFence (afterInfo after) = some (body, rest)) : rest.length < cs.length := by
  have hafter := length_lt_of_splitFence hopened
  have hinfo := length_afterInfo_le after
  have hrest := length_lt_of_splitFence hclosed
  omega

/-- The texts between an opening fence, its info line and the next fence, in their order. -/
def fencedBodies (cs : List Char) : List (List Char) :=
  match _ : splitFence cs with
  | none => []
  | some (_, after) =>
    match _ : splitFence (afterInfo after) with
    | none => []
    | some (body, rest) => body :: fencedBodies rest
termination_by cs.length
decreasing_by exact length_lt_of_closed ‹_› ‹_›

/-- The value of the first text between fences that is JSON of any kind. -/
def firstFenced? (cs : List Char) : Option Json :=
  (fencedBodies cs).findSome? fun body => parse? (Text.trimChars body)

/-- More fuel than the text has characters is enough for all its fences. -/
theorem fenced?_eq_firstFenced? {fuel : Nat} {cs : List Char} (h : cs.length < fuel) :
    fenced? fuel cs = firstFenced? cs := by
  -- Induction on the fuel; each fence that is passed shortens the text, so the fuel lasts.
  induction fuel generalizing cs with
  | zero => exact absurd h (Nat.not_lt_zero _)
  | succ fuel ih =>
    rw [fenced?, firstFenced?, fencedBodies]
    split
    · rename_i hopened
      rw [hopened]
      rfl
    · rename_i before after hopened
      rw [hopened]
      dsimp only
      split
      · rename_i hclosed
        rw [hclosed]
        rfl
      · rename_i body rest hclosed
        have hrest : rest.length < fuel := by
          have hlt := length_lt_of_closed hopened hclosed
          omega
        rw [hclosed]
        dsimp only
        rw [List.findSome?_cons, ih hrest]
        cases parse? (Text.trimChars body) with
        | none => rfl
        | some json => rfl

/-- A payload is the whole text, or the body of the first fence that is one, or the first span. -/
theorem payload?_eq (s : String) :
    payload? s = ((whole? (Text.trimChars s.toList)).or
      (firstFenced? (Text.trimChars s.toList))).or (spanned? s.toList) := by
  rw [payload?, payloadChars?_eq, fenced?_eq_firstFenced? (Nat.lt_succ_self _)]

-- ---------------------------------------------------------------------------
-- The kind of a payload
-- ---------------------------------------------------------------------------

/-- A span that is a payload is a container. -/
theorem isContainer_of_spanned? {cs : List Char} {json : Json} (h : spanned? cs = some json) :
    json.isContainer = true := by
  obtain ⟨before, rest, -, ⟨span, after, -, -, haccepted⟩, -⟩ := spanned?_eq_some_iff.mp h
  exact haccepted.2

/-- A payload is an array or an object, or it stands between fences. -/
theorem isContainer_or_fenced {s : String} {json : Json} (h : payload? s = some json) :
    json.isContainer = true ∨
      whole? (Text.trimChars s.toList) = none ∧
        firstFenced? (Text.trimChars s.toList) = some json := by
  rw [payload?_eq, Option.or_eq_some_iff, Option.or_eq_some_iff] at h
  rcases h with (hwhole | ⟨hwhole, hfenced⟩) | ⟨-, hspanned⟩
  · exact .inl (whole?_eq_some_iff.mp hwhole).2
  · exact .inr ⟨hwhole, hfenced⟩
  · exact .inl (isContainer_of_spanned? hspanned)

/-- **A payload is no array and no object exactly if the text as a whole is none and the first JSON
between fences is a bare value. If a part of the text is an array or an object, then such a one is
the payload, unless JSON between fences comes first.** -/
theorem payload?_bare_iff (s : String) :
    (∀ json, json.isContainer = false →
      (payload? s = some json ↔
        (∀ json', ¬ Accepted (Text.trimChars s.toList) json') ∧
          firstFenced? (Text.trimChars s.toList) = some json)) ∧
    (∀ sub json, sub <:+: s.toList → Accepted sub json →
      ∃ found, payload? s = some found ∧
        (found.isContainer = true ∨ firstFenced? (Text.trimChars s.toList) = some found)) := by
  have hnone : whole? (Text.trimChars s.toList) = none ↔
      ∀ json', ¬ Accepted (Text.trimChars s.toList) json' := by
    rw [Option.eq_none_iff_forall_ne_some]
    exact forall_congr' fun json' => not_congr whole?_eq_some_iff
  refine ⟨fun json hbare => ⟨fun h => ?_, fun h => ?_⟩, fun sub json hsub haccepted => ?_⟩
  · rcases isContainer_or_fenced h with hcontainer | ⟨hwhole, hfenced⟩
    · exact absurd (hcontainer.symm.trans hbare) (by decide)
    · exact ⟨hnone.mp hwhole, hfenced⟩
  · rw [payload?_eq, hnone.mpr h.1, h.2, Option.none_or, Option.some_or]
  · cases hpayload : payload? s with
    | none =>
      -- with no payload the search for a span has found nothing
      rw [payload?_eq, Option.or_eq_none_iff] at hpayload
      exact absurd haccepted (not_accepted_of_spanned?_eq_none hpayload.2 hsub json)
    | some found =>
      refine ⟨found, rfl, ?_⟩
      exact (isContainer_or_fenced hpayload).imp_right And.right

/-- Fences inside a string of an object, around a number: the object is read, but the number is the
payload. -/
theorem payload?_bare_in_string :
    let reply := "Plan: \x7b\"note\": \"``` 1 ```\"\x7d"
    ∃ json, json.isContainer = false ∧ payload? reply = some json ∧
      (∀ json', ¬ Accepted (Text.trimChars reply.toList) json') ∧
      firstFenced? (Text.trimChars reply.toList) = some json := by
  intro reply
  have hbare : (payload? reply).map Json.isContainer = some false := by decide +kernel
  obtain ⟨json, hjson, hkind⟩ := Option.map_eq_some_iff.mp hbare
  exact ⟨json, hkind, hjson, ((payload?_bare_iff reply).1 json hkind).mp hjson⟩

/-- A number between fences is the payload, and the plan after it is passed over. -/
theorem exists_bare_payload :
    let reply := "```\n42\n```\n\x7b\"layer\": \"echo\"\x7d"
    let plan := "\x7b\"layer\": \"echo\"\x7d"
    ∃ json json', payload? reply = some json ∧ json.isContainer = false ∧
      plan.toList <:+: reply.toList ∧ Accepted plan.toList json' := by
  intro reply plan
  have hbare : (payload? reply).map Json.isContainer = some false := by decide +kernel
  have hplan : (parse? plan.toList).map Json.isContainer = some true := by decide +kernel
  obtain ⟨json, hjson, hkind⟩ := Option.map_eq_some_iff.mp hbare
  obtain ⟨json', hjson', hkind'⟩ := Option.map_eq_some_iff.mp hplan
  exact ⟨json, json', hjson, hkind, by decide +kernel, hjson', hkind'⟩

end PlanRunner.Extraction
