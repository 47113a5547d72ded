import PlanRunner.Context.Compose

/-!
# PlanRunner — what gives way in a prompt

A prompt that is too long loses lines of the lasting facts, and only when none of these is left,
lines of the request. The estimate of a joined text is at most the sum of the estimates of its parts
and one token for the separator, so a part that fits into what the others leave free makes the whole
fit, although every estimate is rounded up.

* `estimateTokens_append_le`, `estimateTokens_joinParts_le` — the estimate of parts that are joined;
* `Remains` — a block as it is, nothing of it, or its heading and at least one more of its lines;
* `fitBlock_cases` — a shortened block is nothing or fits with its separator;
* `compose_trims` — the prompt within the limit, and what of each block is in it.
-/

namespace PlanRunner.Context

-- ---------------------------------------------------------------------------
-- Parts and their estimates
-- ---------------------------------------------------------------------------

/-- The parts that are not empty, with a blank line between them. -/
def joined (parts : List String) : String :=
  separator.intercalate (parts.filter fun p => !p.isEmpty)

theorem isBlank_empty : Text.isBlank "" = true := rfl

theorem estimateTokens_separator : estimateTokens separator = 1 := rfl

/-- Rounding up each of two parts and the separator is no less than rounding up the whole. -/
theorem estimateTokens_append_le (p q : String) :
    estimateTokens (p ++ separator ++ q) ≤ estimateTokens p + 1 + estimateTokens q := by
  have hseparator : separator.utf8ByteSize = 2 := rfl
  unfold estimateTokens
  rw [String.utf8ByteSize_append, String.utf8ByteSize_append, hseparator]
  omega

/-- Text in front makes a prompt no smaller. -/
theorem estimateTokens_le_append (p q : String) :
    estimateTokens q ≤ estimateTokens (p ++ separator ++ q) := by
  unfold estimateTokens
  rw [String.utf8ByteSize_append]
  omega

section Parts

variable {p : String} {ps : List String}

/-- A blank part is left out. -/
theorem joinParts_cons_of_blank (h : Text.isBlank p = true) : joinParts (p :: ps) = joinParts ps := by
  rw [joinParts, List.filter_cons_of_neg (by simp [h]), joinParts]

/-- A part in front of others, some of which are not blank. -/
theorem joinParts_cons (h : Text.isBlank p = false) (hps : ∃ q ∈ ps, Text.isBlank q = false) :
    joinParts (p :: ps) = p ++ separator ++ joinParts ps := by
  have hne : (ps.filter fun q => !Text.isBlank q) ≠ [] := by
    obtain ⟨q, hq, hblank⟩ := hps
    exact List.ne_nil_of_mem (List.mem_filter.mpr ⟨hq, by simp [hblank]⟩)
  rw [joinParts, List.filter_cons_of_pos (by simp [h]), String.intercalate_cons_of_ne_nil hne,
    joinParts]

/-- A single part is the whole prompt. -/
theorem joinParts_singleton (h : Text.isBlank p = false) : joinParts [p] = p := by
  simp [joinParts, h]

/-- A part adds its own tokens, and one for the separator. -/
theorem estimateTokens_joinParts_le (hps : ∃ q ∈ ps, Text.isBlank q = false) :
    estimateTokens (joinParts (p :: ps)) ≤ estimateTokens p + 1 + estimateTokens (joinParts ps) := by
  cases hp : Text.isBlank p with
  | true =>
    rw [joinParts_cons_of_blank hp]
    omega
  | false =>
    rw [joinParts_cons hp hps]
    exact estimateTokens_append_le _ _

/-- A part in front makes a prompt no smaller. -/
theorem estimateTokens_le_joinParts (hps : ∃ q ∈ ps, Text.isBlank q = false) :
    estimateTokens (joinParts ps) ≤ estimateTokens (joinParts (p :: ps)) := by
  cases hp : Text.isBlank p with
  | true => exact Nat.le_of_eq (congrArg _ (joinParts_cons_of_blank hp).symm)
  | false =>
    rw [joinParts_cons hp hps]
    exact estimateTokens_le_append _ _

end Parts

-- ---------------------------------------------------------------------------
-- A block and its lines
-- ---------------------------------------------------------------------------

/-- What may be left of a block under a heading: the block as it is, nothing, or the heading and at
least one more line, without what is after them. -/
inductive Remains (heading block : String) : String → Prop where
  | whole : Remains heading block block
  | gone : Remains heading block ""
  | first {lines : List String} {n : Nat} (hlines : Text.lines block = heading :: lines)
      (hmore : 0 < n) (hn : n ≤ lines.length) :
      Remains heading block (Text.joinLines (heading :: lines.take n))

/-- The lines that are taken are first lines, and if any are taken, all of them fit. -/
theorem fitLines_eq (budget : Nat) (kept lines : List String) :
    ∃ n ≤ lines.length, fitLines budget kept lines = kept ++ lines.take n ∧
      (0 < n → fits budget (kept ++ lines.take n) = true) := by
  -- line after line, as long as the budget lasts; what was kept stays
  induction lines generalizing kept with
  | nil => exact ⟨0, Nat.le_refl 0, by simp [fitLines], by simp⟩
  | cons line lines ih =>
    rw [fitLines]
    split
    · rename_i hfits
      obtain ⟨n, hn, heq, hmore⟩ := ih (kept ++ [line])
      refine ⟨n + 1, by simpa using hn, by simp [heq], fun _ => ?_⟩
      cases n with
      | zero => simpa using hfits
      | succ n => simpa using hmore (Nat.succ_pos n)
    · exact ⟨0, Nat.zero_le _, by simp, by simp⟩

/-- A shortened block is nothing, or some first lines that leave room for a separator. -/
theorem fitBlock_cases (budget : Nat) (b : String) :
    fitBlock budget b = "" ∨
      ∃ n, 2 ≤ n ∧ n ≤ (Text.lines b).length ∧
        fitBlock budget b = Text.joinLines ((Text.lines b).take n) ∧
        estimateTokens (fitBlock budget b) + 1 ≤ budget := by
  obtain ⟨n, hn, hkept, hfits⟩ := fitLines_eq budget [] (Text.lines b)
  rw [List.nil_append] at hkept hfits
  unfold fitBlock
  rw [hkept]
  dsimp only
  -- without a line besides the heading nothing is kept
  split
  · exact .inl rfl
  · rename_i hmore
    rw [List.length_take] at hmore
    refine .inr ⟨n, by omega, hn, rfl, ?_⟩
    have hfits := hfits (by omega)
    rw [fits, decide_eq_true_eq, estimateTokens_separator] at hfits
    exact hfits

/-- The first line ends at the first line feed. -/
theorem splitFeeds_append {line : List Char} (h : '\n' ∉ line) (cs : List Char) :
    Text.splitFeeds (line ++ '\n' :: cs) = line :: Text.splitFeeds cs := by
  induction line with
  | nil => rfl
  | cons c line ih =>
    rw [List.mem_cons, not_or] at h
    rw [List.cons_append, Text.splitFeeds, if_neg (Ne.symm h.1), ih h.2]

/-- Every text has a line, empty or not. -/
theorem splitFeeds_ne_nil (cs : List Char) : Text.splitFeeds cs ≠ [] := by
  cases cs with
  | nil => exact List.cons_ne_nil _ _
  | cons c cs =>
    rw [Text.splitFeeds]
    split
    · exact List.cons_ne_nil _ _
    · split
      · exact List.cons_ne_nil _ _
      · exact List.cons_ne_nil _ _

/-- A heading is one line, without a carriage return at its end, and says something. -/
structure Heading (heading : String) : Prop where
  line : '\n' ∉ heading.toList
  plain : Text.dropReturn heading.toList = heading.toList
  notBlank : Text.isBlank heading = false

theorem heading_lasting : Heading lastingHeading := ⟨by decide +kernel, by decide +kernel, rfl⟩

theorem heading_request : Heading requestHeading := ⟨by decide +kernel, by decide +kernel, rfl⟩

section Remains

variable {heading : String}

/-- The heading is the first line of its block. -/
theorem Heading.lines (h : Heading heading) (text : String) :
    Text.lines (heading ++ "\n" ++ text) = heading :: Text.lines text := by
  have htext : (heading ++ "\n" ++ text).toList = heading.toList ++ '\n' :: text.toList := by simp
  unfold Text.lines Text.lineChars
  rw [htext, splitFeeds_append h.line]
  obtain ⟨piece, pieces, hpieces⟩ := List.exists_cons_of_ne_nil (splitFeeds_ne_nil text.toList)
  rw [hpieces, Text.linesOfPieces, h.plain, List.map_cons, String.ofList_toList]
  exact List.cons_ne_nil _ _

/-- Two texts are blank together when each is. -/
theorem isBlank_append (p q : String) :
    Text.isBlank (p ++ q) = (Text.isBlank p && Text.isBlank q) := by
  simp [Text.isBlank]

/-- A block with a heading is not blank. -/
theorem Heading.notBlank_append (h : Heading heading) (text : String) :
    Text.isBlank (heading ++ text) = false := by
  rw [isBlank_append, h.notBlank, Bool.false_and]

/-- Joined lines start with the first of them. -/
theorem joinLines_cons (line : String) (lines : List String) :
    ∃ text, Text.joinLines (line :: lines) = line ++ text := by
  unfold Text.joinLines
  cases lines with
  | nil => exact ⟨"", by simp⟩
  | cons next lines => exact ⟨_, by rw [String.intercalate_cons_cons, String.append_assoc]⟩

/-- A block is empty, or it is its heading and more lines. -/
theorem block_cases (heading : String) (facts : Facts) :
    block heading facts = "" ∨ ∃ text, block heading facts = heading ++ "\n" ++ text := by
  unfold block
  dsimp only
  split
  · exact .inl rfl
  · exact .inr ⟨_, rfl⟩

/-- What is fitted of a block is the heading with the first lines, or nothing. -/
theorem remains_fitBlock (h : Heading heading) (facts : Facts) (budget : Nat) :
    Remains heading (block heading facts) (fitBlock budget (block heading facts)) := by
  rcases fitBlock_cases budget (block heading facts) with hgone | ⟨n, htwo, hn, hfirst, -⟩
  · rw [hgone]
    exact .gone
  · -- a block without facts has no lines to cut
    rcases block_cases heading facts with hempty | ⟨text, htext⟩
    · have hlines : Text.lines (block heading facts) = [] := by
        rw [hempty]
        rfl
      rw [hlines, List.length_nil] at hn
      omega
    · have hlines : Text.lines (block heading facts) = heading :: Text.lines text := by
        rw [htext, h.lines]
      rw [hlines, List.length_cons] at hn
      obtain ⟨n, rfl⟩ : ∃ m, n = m + 1 := ⟨n - 1, by omega⟩
      rw [hfirst, hlines, List.take_succ_cons]
      exact .first hlines (by omega) (by omega)

/-- What is left of a block is empty or starts with the heading. -/
theorem Remains.notBlank (h : Heading heading) {facts : Facts} {part : String}
    (hpart : Remains heading (block heading facts) part) :
    part = "" ∨ Text.isBlank part = false := by
  -- the whole block and its first lines begin with the heading
  cases hpart with
  | whole =>
    rcases block_cases heading facts with hempty | ⟨text, htext⟩
    · exact .inl hempty
    · rw [htext, String.append_assoc]
      exact .inr (h.notBlank_append _)
  | gone => exact .inl rfl
  | @first lines n =>
    obtain ⟨text, htext⟩ := joinLines_cons heading (lines.take n)
    rw [htext]
    exact .inr (h.notBlank_append _)

/-- Of parts that are empty or not blank, those that are not empty are joined. -/
theorem joinParts_eq_joined {parts : List String}
    (h : ∀ p ∈ parts, p = "" ∨ Text.isBlank p = false) : joinParts parts = joined parts := by
  unfold joinParts joined
  refine congrArg _ (List.filter_congr fun p hp => ?_)
  rcases h p hp with rfl | hblank
  · rfl
  · have hne : p ≠ "" := fun heq => by
      rw [heq, isBlank_empty] at hblank
      exact Bool.noConfusion hblank
    simp [hblank, hne]

end Remains

-- ---------------------------------------------------------------------------
-- The prompt
-- ---------------------------------------------------------------------------

/-- A part that is shortened to what the others leave free is left out or makes the whole fit. -/
theorem fitBlock_fits {ps : List String} (hps : ∃ q ∈ ps, Text.isBlank q = false) (limit : Nat)
    (b : String) :
    fitBlock (limit - estimateTokens (joinParts ps)) b = "" ∨
      estimateTokens (joinParts (fitBlock (limit - estimateTokens (joinParts ps)) b :: ps)) ≤
        limit := by
  rcases fitBlock_cases (limit - estimateTokens (joinParts ps)) b with hgone | ⟨_, -, -, -, hfits⟩
  · exact .inl hgone
  · have hle := estimateTokens_joinParts_le
      (p := fitBlock (limit - estimateTokens (joinParts ps)) b) hps
    exact .inr (by omega)

/-- Nothing fits into no budget. -/
theorem fitBlock_zero (b : String) : fitBlock 0 b = "" := by
  rcases fitBlock_cases 0 b with hgone | ⟨_, -, -, -, hfits⟩
  · exact hgone
  · omega

section Compose

variable {body : String} (hbody : Text.isBlank body = false)

include hbody

/-- Nothing is shortened if the prompt fits. Otherwise the first block is, and the second one stays
whole if the prompt fits then. If not, the first block is left out, and the second one is shortened
to what the body leaves free. -/
theorem composeBlocks_cases (lasting request : String) (limit : Nat) :
    estimateTokens (joinParts [lasting, request, body]) ≤ limit ∧
        composeBlocks lasting request body limit = joinParts [lasting, request, body] ∨
      limit < estimateTokens (joinParts [lasting, request, body]) ∧
        (∃ budget, estimateTokens (joinParts [fitBlock budget lasting, request, body]) ≤ limit ∧
          composeBlocks lasting request body limit =
            joinParts [fitBlock budget lasting, request, body]) ∨
      limit < estimateTokens (joinParts [request, body]) ∧
        composeBlocks lasting request body limit =
          joinParts [fitBlock (limit - estimateTokens body) request, body] := by
  have hblank : ∀ ps, joinParts ("" :: ps) = joinParts ps := fun _ =>
    joinParts_cons_of_blank isBlank_empty
  have hrest : ∃ q ∈ [request, body], Text.isBlank q = false := ⟨body, by simp, hbody⟩
  unfold composeBlocks
  simp only [hblank]
  -- all of it fits, or the lasting block is cut, or the request's block is cut too
  by_cases hfits : limit < estimateTokens (joinParts [lasting, request, body])
  · rw [if_pos hfits]
    rcases fitBlock_fits hrest limit lasting with hgone | hfitted
    · simp only [hgone, hblank, joinParts_singleton hbody]
      by_cases hrequest : limit < estimateTokens (joinParts [request, body])
      · rw [if_pos hrequest]
        exact .inr (.inr ⟨hrequest, rfl⟩)
      · rw [if_neg hrequest]
        refine .inr (.inl ⟨hfits, 0, ?_⟩)
        rw [fitBlock_zero, hblank]
        exact ⟨Nat.not_lt.mp hrequest, rfl⟩
    · rw [if_neg (Nat.not_lt.mpr hfitted)]
      exact .inr (.inl ⟨hfits, _, hfitted, rfl⟩)
  · rw [if_neg hfits, if_neg hfits]
    exact .inl ⟨Nat.not_lt.mp hfits, rfl⟩

/-- The body is part of every prompt. -/
theorem estimateTokens_body_le (p q : String) :
    estimateTokens body ≤ estimateTokens (joinParts [p, q, body]) := by
  have hone := estimateTokens_le_joinParts (p := q) ⟨body, List.mem_singleton_self body, hbody⟩
  have htwo : estimateTokens (joinParts [q, body]) ≤ estimateTokens (joinParts [p, q, body]) :=
    estimateTokens_le_joinParts ⟨body, by simp, hbody⟩
  rw [joinParts_singleton hbody] at hone
  exact Nat.le_trans hone htwo

/-- A prompt stays within the limit if its body does, and is the body otherwise. -/
theorem composeBlocks_within (lasting request : String) (limit : Nat) :
    (estimateTokens body ≤ limit →
        estimateTokens (composeBlocks lasting request body limit) ≤ limit) ∧
      (limit < estimateTokens body → composeBlocks lasting request body limit = body) := by
  have hle := fun p q => estimateTokens_body_le hbody p q
  -- by what was cut; the body alone is left when it does not fit by itself
  rcases composeBlocks_cases hbody lasting request limit with
    ⟨hfits, heq⟩ | ⟨-, budget, hfits, heq⟩ | ⟨-, heq⟩
  · rw [heq]
    exact ⟨fun _ => hfits, fun hover => absurd (hle lasting request) (by omega)⟩
  · rw [heq]
    exact ⟨fun _ => hfits, fun hover => absurd (hle (fitBlock budget lasting) request) (by omega)⟩
  · have hsingle : joinParts [body] = body := joinParts_singleton hbody
    have hgone : joinParts ["", body] = body := by
      rw [joinParts_cons_of_blank isBlank_empty, hsingle]
    refine ⟨fun hwithin => ?_, fun hover => ?_⟩
    · have hshort := fitBlock_fits ⟨body, List.mem_singleton_self body, hbody⟩ limit request
      rw [hsingle] at hshort
      rw [heq]
      rcases hshort with hshort | hshort
      · rw [hshort, hgone]
        exact hwithin
      · exact hshort
    · rw [heq, Nat.sub_eq_zero_of_le (Nat.le_of_lt hover), fitBlock_zero, hgone]

/-- **What gives way in a prompt.** If the body is within the limit, so is the prompt, and otherwise
the prompt is the body. If nothing has to give way, nothing does. What is left of either block is
the block as it is, nothing, or its heading with at least one more of its first lines, and what is
left of both stands before the whole body. The request stays as it is while any lasting fact is
left. -/
theorem compose_trims (lasting request : Facts) (limit : Nat) :
    (estimateTokens body ≤ limit → estimateTokens (compose lasting request body limit) ≤ limit) ∧
      (limit < estimateTokens body → compose lasting request body limit = body) ∧
      (estimateTokens (joined [block lastingHeading lasting, block requestHeading request, body]) ≤
          limit →
        compose lasting request body limit =
          joined [block lastingHeading lasting, block requestHeading request, body]) ∧
      ∃ first second, Remains lastingHeading (block lastingHeading lasting) first ∧
        Remains requestHeading (block requestHeading request) second ∧
        compose lasting request body limit = joined [first, second, body] ∧
        (second ≠ block requestHeading request → first = "") := by
  -- the parts that remain are not blank unless they are empty, so nothing else is dropped in
  -- joining them
  have hjoined : ∀ {first second : String},
      Remains lastingHeading (block lastingHeading lasting) first →
      Remains requestHeading (block requestHeading request) second →
      joinParts [first, second, body] = joined [first, second, body] := by
    intro first second hfirst hsecond
    refine joinParts_eq_joined ?_
    rw [List.forall_mem_cons, List.forall_mem_cons, List.forall_mem_singleton]
    exact ⟨hfirst.notBlank heading_lasting, hsecond.notBlank heading_request, .inr hbody⟩
  have hwhole := hjoined .whole .whole
  obtain ⟨hwithin, hover⟩ := composeBlocks_within hbody (block lastingHeading lasting)
    (block requestHeading request) limit
  refine ⟨hwithin, hover, ?_⟩
  unfold compose
  rcases composeBlocks_cases hbody (block lastingHeading lasting) (block requestHeading request)
    limit with ⟨-, heq⟩ | ⟨hlimit, budget, -, heq⟩ | ⟨hlimit, heq⟩
  · rw [heq, hwhole]
    exact ⟨fun _ => rfl, _, _, .whole, .whole, rfl, fun hne => absurd rfl hne⟩
  · have hfirst := remains_fitBlock heading_lasting lasting budget
    rw [heq, ← hwhole, hjoined hfirst .whole]
    exact ⟨fun hle => absurd hle (by omega), _, _, hfirst, .whole, rfl, fun hne => absurd rfl hne⟩
  · have hsecond := remains_fitBlock heading_request request (limit - estimateTokens body)
    have hle : estimateTokens (joinParts [block requestHeading request, body]) ≤
        estimateTokens (joinParts [block lastingHeading lasting, block requestHeading request, body]) :=
      estimateTokens_le_joinParts ⟨body, by simp, hbody⟩
    have hgone := hjoined .gone hsecond
    rw [joinParts_cons_of_blank isBlank_empty] at hgone
    rw [heq, ← hwhole, hgone]
    exact ⟨fun hle' => absurd hle' (by omega), _, _, .gone, hsecond, rfl, fun _ => rfl⟩

end Compose

/-- The lasting facts keep a first line of theirs and lose the second, which is too long, and the
request stays as it is. -/
theorem compose_trims_rules :
    let lasting : Facts :=
      .ofList [("projectRoot", .str "/a"), ("projectRules", .str "Never delete any data.")]
    let request : Facts := .ofList [("user", .str "sam")]
    Text.isBlank "TASK" = false ∧ estimateTokens "TASK" ≤ 20 ∧
      estimateTokens (compose lasting request "TASK" 20) ≤ 20 ∧
      (∃ first second, Remains lastingHeading (block lastingHeading lasting) first ∧
        Remains requestHeading (block requestHeading request) second ∧
        compose lasting request "TASK" 20 = joined [first, second, "TASK"] ∧
        (second ≠ block requestHeading request → first = "")) ∧
      compose lasting request "TASK" 20 =
        "## Project context\nprojectRoot: /a\n\n## Request context\nuser: sam\n\nTASK" := by
  intro lasting request
  have hbody : Text.isBlank "TASK" = false := rfl
  have hlimit : estimateTokens "TASK" ≤ 20 := by decide +kernel
  obtain ⟨hwithin, -, -, hparts⟩ := compose_trims hbody lasting request 20
  exact ⟨hbody, hlimit, hwithin hlimit, hparts, by decide +kernel⟩

/-- Some of the first lines of a text, at least two of them, or nothing. -/
def FirstLines (lines : List String) (part : String) : Prop :=
  part = "" ∨ ∃ n, 2 ≤ n ∧ n ≤ lines.length ∧ part = Text.joinLines (lines.take n)

/-- The pieces of a text between line feeds, carriage returns included. -/
def feedLines (s : String) : List String :=
  (Text.splitFeeds s.toList).map String.ofList

/-- No lines, one, two and so on, up to all of them. -/
def firstParts (lines : List String) : List String :=
  "" :: (List.range (lines.length + 1)).map fun n => Text.joinLines (lines.take n)

/-- What is cut of a block is one of its beginnings. -/
theorem FirstLines.mem {lines : List String} {part : String} (h : FirstLines lines part) :
    part ∈ firstParts lines := by
  rcases h with rfl | ⟨n, -, hn, rfl⟩
  · exact List.mem_cons_self
  · exact List.mem_cons_of_mem _
      (List.mem_map.mpr ⟨n, List.mem_range.mpr (Nat.lt_succ_of_le hn), rfl⟩)

/-- A value of two lines, the second of which is too long. -/
def crossedLasting : Facts :=
  .ofList [("projectRules", .str "keep\r\nrrrrrrrrrrrrrrrrrrrrrrrrrrrrrrrrrrrrrrrr")]

def crossedRequest : Facts := .ofList [("user", .str "a\r\nb")]

/-- A block that stays whole keeps its carriage returns, and one that is shortened loses them. So
with a carriage return in both blocks, of which one is shortened, no single notion of a line makes
what is left of each of them some of its first lines. -/
theorem exists_compose_not_firstLines :
    ∃ (lasting request : Facts) (body : String) (limit : Nat), Text.isBlank body = false ∧
      ∀ linesOf ∈ [Text.lines, feedLines], ¬ ∃ first second,
        FirstLines (linesOf (block lastingHeading lasting)) first ∧
          FirstLines (linesOf (block requestHeading request)) second ∧
          compose lasting request body limit = joined [first, second, body] := by
  refine ⟨crossedLasting, crossedRequest, "TASK", 24, rfl, ?_⟩
  intro linesOf hlines ⟨first, second, hfirst, hsecond, heq⟩
  revert hfirst hsecond heq first second
  suffices h : ∀ linesOf ∈ [Text.lines, feedLines],
      ∀ first ∈ firstParts (linesOf (block lastingHeading crossedLasting)),
        ∀ second ∈ firstParts (linesOf (block requestHeading crossedRequest)),
          compose crossedLasting crossedRequest "TASK" 24 ≠ joined [first, second, "TASK"] from
    fun first second hfirst hsecond heq => h linesOf hlines first hfirst.mem second hsecond.mem heq
  decide +kernel

end PlanRunner.Context
