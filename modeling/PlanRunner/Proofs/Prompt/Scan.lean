import PlanRunner.Prompt.Extraction
import PlanRunner.Proofs.Json.Grammar

/-!
# PlanRunner — the scan for a closing bracket

The scan counts brackets of either kind and passes over strings, an escape being a backslash and one
more character. On the text of an array or an object that is enough: its brackets are matched, and
in its strings every quote but the last comes after a backslash. The condition that the scan goes
over a text with leaves no backtick outside strings and no line feed inside, which is how a text
between fences is kept apart from one around them.

* `Scan.Goes` — a scan goes from one state to another, and a condition holds at every character;
* `Scan.goes_value` — over the text of a value it comes back to where it was;
* `Scan.bracketed_of_containerText` — of an array or an object only the last bracket closes the
  first;
* `balanced?_append` — so the scan ends with the text, whatever comes after it.
-/

namespace PlanRunner.Extraction

open Json

/-- The brackets that close an object or an array. -/
def closesValue (c : Char) : Bool := c == '}' || c == ']'

theorem opensValue_iff {c : Char} : opensValue c = true ↔ c = '{' ∨ c = '[' := by simp [opensValue]

theorem closesValue_iff {c : Char} : closesValue c = true ↔ c = '}' ∨ c = ']' := by
  simp [closesValue]

-- ---------------------------------------------------------------------------
-- Where a scan stands
-- ---------------------------------------------------------------------------

namespace Scan

/-- Outside strings, with so many brackets open. -/
def outside (depth : Nat) : Scan := ⟨depth, false, false⟩

/-- In a string, with so many brackets open. -/
def inside (depth : Nat) : Scan := ⟨depth, true, false⟩

/-- In a string after a backslash. -/
def escaping (depth : Nat) : Scan := ⟨depth, true, true⟩

/-- Where JSON can stand: outside strings no backtick, in strings no line feed. -/
def Tidy (s : Scan) (c : Char) : Prop :=
  if s.inString then c ≠ '\n' else c ≠ '`'

/-- A tidy character that does not close the first bracket. -/
def Calm (s : Scan) (c : Char) : Prop :=
  s.Tidy c ∧ (s.inString = false → closesValue c = true → 2 ≤ s.depth)

/-- A scan goes over a text from one state to another, and at every character a condition holds. -/
def Goes (P : Scan → Char → Prop) : Scan → List Char → Scan → Prop
  | s, [], t => s = t
  | s, c :: cs, t => P s c ∧ Goes P (s.step c) cs t

variable {P Q : Scan → Char → Prop} {s t u : Scan} {cs ds : List Char}

/-- A scan goes over two texts by going over one after the other. -/
theorem Goes.append (hcs : Goes P s cs t) (hds : Goes P t ds u) : Goes P s (cs ++ ds) u := by
  induction cs generalizing s with
  | nil => exact (show s = t from hcs) ▸ hds
  | cons c cs ih => exact ⟨hcs.1, ih hcs.2⟩

/-- And a scan of two texts stops between them. -/
theorem Goes.of_append (h : Goes P s (cs ++ ds) u) : ∃ t, Goes P s cs t ∧ Goes P t ds u := by
  induction cs generalizing s with
  | nil => exact ⟨s, rfl, h⟩
  | cons c cs ih =>
    obtain ⟨t, hcs, hds⟩ := ih h.2
    exact ⟨t, ⟨h.1, hcs⟩, hds⟩

/-- A scan that meets a condition meets every weaker one. -/
theorem Goes.mono (hPQ : ∀ {s c}, P s c → Q s c) (h : Goes P s cs t) : Goes Q s cs t := by
  induction cs generalizing s with
  | nil => exact h
  | cons c cs ih => exact ⟨hPQ h.1, ih h.2⟩

/-- A scan ends in one state. -/
theorem Goes.unique (h : Goes P s cs t) (h' : Goes Q s cs u) : t = u := by
  induction cs generalizing s with
  | nil => exact (show s = t from h).symm.trans h'
  | cons c cs ih => exact ih h.2 h'.2

/-- Characters that mean nothing outside strings: no quote, no bracket and no backtick. -/
def isQuiet (c : Char) : Bool :=
  c != '"' && !opensValue c && !closesValue c && c != '`'

theorem isQuiet_iff {c : Char} :
    isQuiet c = true ↔ c ≠ '"' ∧ opensValue c = false ∧ closesValue c = false ∧ c ≠ '`' := by
  simp [isQuiet, and_assoc]

/-- White space does not concern the scan. -/
theorem isQuiet_of_isGap {c : Char} (h : isGap c = true) : isQuiet c = true := by
  rcases isGap_iff.mp h with rfl | rfl | rfl | rfl <;> rfl

/-- Nor do the characters of numbers. -/
theorem isQuiet_of_isNumeric {c : Char} (h : isNumeric c = true) : isQuiet c = true := by
  simp only [isQuiet_iff, opensValue, closesValue, Bool.or_eq_false_iff, beq_eq_false_iff_ne]
  refine ⟨?_, ⟨?_, ?_⟩, ⟨?_, ?_⟩, ?_⟩
  all_goals
    rintro rfl
    exact absurd h (by decide)

/-- A quiet character leaves the scan where it is. -/
theorem outside_step_quiet {c : Char} (h : isQuiet c = true) (depth : Nat) :
    (outside depth).step c = outside depth := by
  simp only [isQuiet_iff, opensValue, closesValue, Bool.or_eq_false_iff, beq_eq_false_iff_ne] at h
  simp [step, outside, h]

/-- A bracket that opens goes one level deeper. -/
theorem outside_step_opens {c : Char} (h : opensValue c = true) (depth : Nat) :
    (outside depth).step c = outside (depth + 1) := by
  rcases opensValue_iff.mp h with rfl | rfl
  · rfl
  · rfl

/-- A bracket that closes goes one level up. -/
theorem outside_step_closes {c : Char} (h : closesValue c = true) (depth : Nat) :
    (outside depth).step c = outside (depth - 1) := by
  rcases closesValue_iff.mp h with rfl | rfl
  · rfl
  · rfl

/-- A plain character does not end a string. -/
theorem inside_step_plain {c : Char} (h : isPlain c = true) (depth : Nat) :
    (inside depth).step c = inside depth := by
  obtain ⟨hquote, hslash, -⟩ := isPlain_iff.mp h
  simp [step, inside, hquote, hslash]

/-- Outside of strings the scan is calm about all but backticks and closing brackets. -/
theorem calm_outside {c : Char} (htick : c ≠ '`') (hclose : closesValue c = false) (depth : Nat) :
    (outside depth).Calm c :=
  ⟨htick, fun _ h => absurd h (by simp [hclose])⟩

/-- It is calm about a bracket that opens. -/
theorem calm_outside_opens {c : Char} (h : opensValue c = true) (depth : Nat) :
    (outside depth).Calm c := by
  rcases opensValue_iff.mp h with rfl | rfl
  · exact calm_outside (by decide) (by decide) depth
  · exact calm_outside (by decide) (by decide) depth

/-- It is calm about a bracket that closes an inner level. -/
theorem calm_outside_closes {c : Char} (h : closesValue c = true) {depth : Nat} (hdepth : 2 ≤ depth) :
    (outside depth).Calm c := by
  refine ⟨?_, fun _ _ => hdepth⟩
  rintro rfl
  exact absurd h (by decide)

/-- In a string the scan is calm about all but line feeds. -/
theorem calm_of_inString {s : Scan} (hin : s.inString = true) {c : Char} (h : c ≠ '\n') :
    s.Calm c :=
  ⟨by simpa [Tidy, hin] using h, fun hout => absurd hout (by simp [hin])⟩

/-- No character from the blank on is a line feed. -/
theorem ne_feed_of_le {c : Char} (h : 32 ≤ c.toNat) : c ≠ '\n' := by
  rintro rfl
  exact absurd h (by decide)

end Scan

-- ---------------------------------------------------------------------------
-- The span up to a closing bracket
-- ---------------------------------------------------------------------------

/-- A span goes on over a character that does not close its outermost bracket. -/
theorem closeSpan_cons {s : Scan} {c : Char}
    (h : s.inString = false → closesValue c = true → 2 ≤ s.depth) (cs : List Char) :
    closeSpan s (c :: cs) = (closeSpan (s.step c) cs).map (c :: ·) := by
  rw [closeSpan]
  refine if_neg fun htest => ?_
  simp only [Bool.and_eq_true, Bool.not_eq_true', decide_eq_true_eq] at htest
  obtain ⟨⟨hout, hclose⟩, hdepth⟩ := htest
  -- the bracket would have to be the outermost one
  have htwo := h hout (by simpa [closesValue] using hclose)
  have hstep : (s.step c).depth = s.depth - 1 := by
    simp only [Bool.or_eq_true, decide_eq_true_eq] at hclose
    rcases hclose with rfl | rfl
    · simp [Scan.step, hout]
    · simp [Scan.step, hout]
  omega

/-- A span goes on over a text that the scan is calm about. -/
theorem Scan.Goes.closeSpan {s t : Scan} {cs : List Char} (h : Scan.Goes Scan.Calm s cs t)
    (after : List Char) :
    Extraction.closeSpan s (cs ++ after) = (Extraction.closeSpan t after).map (cs ++ ·) := by
  induction cs generalizing s with
  | nil =>
    obtain rfl : s = t := h
    simp
  | cons c cs ih =>
    rw [List.cons_append, closeSpan_cons h.1.2, ih h.2, Option.map_map]
    rfl

-- ---------------------------------------------------------------------------
-- The scan over the texts of values
-- ---------------------------------------------------------------------------

namespace Scan

/-- Quiet characters are gone over in place. -/
theorem goes_quiet {cs : List Char} (h : ∀ c ∈ cs, isQuiet c = true) (depth : Nat) :
    Goes Calm (outside depth) cs (outside depth) := by
  induction cs with
  | nil => rfl
  | cons c cs ih =>
    have hc := h c List.mem_cons_self
    obtain ⟨-, -, hclose, htick⟩ := isQuiet_iff.mp hc
    refine ⟨calm_outside htick hclose depth, ?_⟩
    rw [outside_step_quiet hc]
    exact ih fun d hd => h d (List.mem_cons_of_mem c hd)

/-- White space is gone over in place. -/
theorem goes_gap {cs : List Char} (h : IsGap cs) (depth : Nat) :
    Goes Calm (outside depth) cs (outside depth) :=
  goes_quiet (fun c hc => isQuiet_of_isGap (h c hc)) depth

/-- The plain characters of a string are gone over in it. -/
theorem goes_plain {cs : List Char} (h : ∀ c ∈ cs, isPlain c = true) (depth : Nat) :
    Goes Calm (inside depth) cs (inside depth) := by
  induction cs with
  | nil => rfl
  | cons c cs ih =>
    have hc := h c List.mem_cons_self
    refine ⟨calm_of_inString rfl (ne_feed_of_le (isPlain_iff.mp hc).2.2), ?_⟩
    rw [inside_step_plain hc]
    exact ih fun d hd => h d (List.mem_cons_of_mem c hd)

/-- An escape after its backslash, the second one of a pair included. -/
theorem goes_escape {e : Char} {cs : List Char} (h : EscapeText e cs) (depth : Nat) :
    Goes Calm (escaping depth) cs (inside depth) := by
  obtain ⟨c, plain, more, rfl, hc, hplain, hmore⟩ := h.shape
  refine ⟨calm_of_inString rfl (ne_feed_of_le hc), (goes_plain hplain depth).append ?_⟩
  rcases hmore with rfl | ⟨plain', rfl, hplain'⟩
  · rfl
  · exact ⟨calm_of_inString rfl (by decide), calm_of_inString rfl (by decide),
      goes_plain hplain' depth⟩

/-- A string is gone over up to its closing quote. -/
theorem goes_string {s cs : List Char} (h : StringText s cs) (depth : Nat) :
    Goes Calm (inside depth) cs (outside depth) := by
  induction h with
  | close => exact ⟨calm_of_inString rfl (by decide), rfl⟩
  | @plain c s cs hc _ ih =>
    have hplain : Goes Calm (inside depth) [c] (inside depth) :=
      goes_plain (by simpa using hc) depth
    exact hplain.append ih
  | escaped he _ ih => exact ⟨calm_of_inString rfl (by decide), (goes_escape he depth).append ih⟩

/-- A text that ends with a closing bracket, and before it nothing closes the bracket around it. -/
def Inner (cs : List Char) : Prop :=
  ∃ front closing, cs = front ++ [closing] ∧ closesValue closing = true ∧
    ∀ depth, Goes Calm (outside (depth + 1)) front (outside (depth + 1))

/-- A text from an opening bracket to the one that closes it. -/
def Bracketed (cs : List Char) : Prop :=
  ∃ opening inner, cs = opening :: inner ∧ opensValue opening = true ∧ Inner inner

/-- An empty container has nothing inside that concerns the scan. -/
theorem inner_gap {gap : List Char} (hgap : IsGap gap) {closing : Char}
    (hclosing : closesValue closing = true) : Inner (gap ++ [closing]) :=
  ⟨gap, closing, rfl, hclosing, fun depth => goes_gap hgap (depth + 1)⟩

/-- A text in front of the rest of the elements or fields. -/
theorem Inner.append {cs rest : List Char} (hrest : Inner rest)
    (hcs : ∀ depth, Goes Calm (outside (depth + 1)) cs (outside (depth + 1))) :
    Inner (cs ++ rest) := by
  obtain ⟨front, closing, rfl, hclosing, hfront⟩ := hrest
  exact ⟨cs ++ front, closing, by simp, hclosing, fun depth => (hcs depth).append (hfront depth)⟩

/-- Something in brackets is gone over, a level deeper, and left on the level where it began. -/
theorem Bracketed.goes {cs : List Char} (h : Bracketed cs) (depth : Nat) :
    Goes Calm (outside (depth + 1)) cs (outside (depth + 1)) := by
  obtain ⟨opening, inner, rfl, hopening, front, closing, rfl, hclosing, hfront⟩ := h
  have hopens := outside_step_opens hopening (depth + 1)
  have hcloses := outside_step_closes hclosing (depth + 2)
  refine ⟨calm_outside_opens hopening _, ?_⟩
  rw [hopens]
  exact (hfront (depth + 1)).append ⟨calm_outside_closes hclosing (by omega), hcloses⟩

/-- A comma is gone over in place. -/
theorem goes_comma (depth : Nat) : Goes Calm (outside (depth + 1)) [','] (outside (depth + 1)) :=
  goes_quiet (List.all_eq_true.mp rfl) _

/-- A field up to what comes after it. -/
theorem goes_field {start name before gap cs stop : List Char} {key : List Char} (hstart : IsGap start)
    (hkey : StringText key name) (hbefore : IsGap before) (hgap : IsGap gap)
    (hcs : ∀ depth, Goes Calm (outside (depth + 1)) cs (outside (depth + 1))) (hstop : IsGap stop)
    (depth : Nat) :
    Goes Calm (outside (depth + 1)) (fieldText start name before gap cs stop)
      (outside (depth + 1)) := by
  refine (goes_gap hstart _).append ⟨calm_outside (by decide) (by decide) _, ?_⟩
  refine (goes_string hkey _).append ((goes_gap hbefore _).append ?_)
  refine ⟨calm_outside (by decide) (by decide) _, (goes_gap hgap _).append ?_⟩
  exact (hcs depth).append (goes_gap hstop _)

mutual

/-- Over the text of a value a scan comes back to where it was, if a bracket is open around it. -/
theorem goes_value {k : Nat} {json : Json} {cs : List Char} (h : ValueText k json cs)
    (depth : Nat) : Goes Calm (outside (depth + 1)) cs (outside (depth + 1)) := by
  -- words and numbers are quiet, strings are strings, and containers are in brackets
  cases h with
  | null => exact goes_quiet (List.all_eq_true.mp rfl) _
  | true => exact goes_quiet (List.all_eq_true.mp rfl) _
  | false => exact goes_quiet (List.all_eq_true.mp rfl) _
  | number h => exact goes_quiet (fun c hc => isQuiet_of_isNumeric (h.numeric c hc)) _
  | str h => exact ⟨calm_outside (by decide) (by decide) _, goes_string h _⟩
  | noElems hgap => exact Bracketed.goes ⟨'[', _, rfl, rfl, inner_gap hgap rfl⟩ depth
  | elems h => exact Bracketed.goes ⟨'[', _, rfl, rfl, inner_elems h⟩ depth
  | noFields hgap => exact Bracketed.goes ⟨'{', _, rfl, rfl, inner_gap hgap rfl⟩ depth
  | fields h => exact Bracketed.goes ⟨'{', _, rfl, rfl, inner_fields h⟩ depth

/-- The brackets in the elements are matched; the one that closes the array is left. -/
theorem inner_elems {k : Nat} {es : List Json} {cs : List Char} (h : ElemsText k es cs) :
    Inner cs := by
  cases h with
  | last hstart he hstop =>
    refine ((inner_gap hstop rfl).append (goes_value he)).append fun depth => goes_gap hstart _
  | more hstart he hstop hes =>
    have hcomma := (inner_elems hes).append goes_comma
    refine ((hcomma.append fun depth => goes_gap hstop _).append (goes_value he)).append
      fun depth => goes_gap hstart _

/-- The brackets in the fields are matched; the one that closes the object is left. -/
theorem inner_fields {k : Nat} {fs : List (String × Json)} {cs : List Char}
    (h : FieldsText k fs cs) : Inner cs := by
  cases h with
  | last hstart hkey hbefore hgap hv hstop =>
    exact (inner_gap .nil rfl).append (goes_field hstart hkey hbefore hgap (goes_value hv) hstop)
  | more hstart hkey hbefore hgap hv hstop hfs =>
    have hcomma := (inner_fields hfs).append goes_comma
    exact hcomma.append (goes_field hstart hkey hbefore hgap (goes_value hv) hstop)

end

/-- The text of an array or an object goes from its first bracket to the one that closes it. -/
theorem bracketed_of_containerText {json : Json} {cs : List Char} (h : ContainerText json cs) :
    Bracketed cs := by
  obtain ⟨written, htext, -, hcontainer⟩ := h
  cases htext with
  | null | true | false | str => exact absurd hcontainer (by simp [isContainer])
  | number h => exact absurd hcontainer (by simp [h.isContainer])
  | noElems hgap => exact ⟨'[', _, rfl, rfl, inner_gap hgap rfl⟩
  | elems h => exact ⟨'[', _, rfl, rfl, inner_elems h⟩
  | noFields hgap => exact ⟨'{', _, rfl, rfl, inner_gap hgap rfl⟩
  | fields h => exact ⟨'{', _, rfl, rfl, inner_fields h⟩

/-- From outside strings the text of a whole value leads back to where it started. -/
theorem Bracketed.goes_tidy {cs : List Char} (h : Bracketed cs) (depth : Nat) :
    Goes Tidy (outside depth) cs (outside depth) := by
  obtain ⟨opening, inner, rfl, hopening, front, closing, rfl, hclosing, hfront⟩ := h
  have hopens := outside_step_opens hopening depth
  have hcloses := outside_step_closes hclosing (depth + 1)
  have htidy := calm_outside_closes hclosing (Nat.le_refl 2)
  refine ⟨(calm_outside_opens hopening depth).1, ?_⟩
  rw [hopens]
  exact ((hfront depth).mono fun h => h.1).append ⟨htidy.1, hcloses⟩

end Scan

/-- The bracket that closes the outermost level ends the span. -/
theorem closeSpan_closes {c : Char} (h : closesValue c = true) (cs : List Char) :
    closeSpan (Scan.outside 1) (c :: cs) = some [c] := by
  rcases closesValue_iff.mp h with rfl | rfl
  · rfl
  · rfl

/-- **The scan finds the end of the text of a value, whatever comes after it.** -/
theorem balanced?_append {cs : List Char} (h : Scan.Bracketed cs) (after : List Char) :
    balanced? (cs ++ after) = some cs := by
  obtain ⟨opening, inner, rfl, hopening, front, closing, rfl, hclosing, hfront⟩ := h
  -- one bracket is open after the first character, and up to the last one it stays open
  change closeSpan (Scan.outside 0) (opening :: (front ++ [closing] ++ after)) = _
  rw [closeSpan_cons (Scan.calm_outside_opens hopening 0).2, Scan.outside_step_opens hopening,
    List.append_assoc, (hfront 0).closeSpan, List.cons_append, closeSpan_closes hclosing]
  rfl

/-- What the scan finds is in front of the text. -/
theorem prefix_of_closeSpan {s : Scan} {cs span : List Char} (h : closeSpan s cs = some span) :
    span <+: cs := by
  induction cs generalizing s span with
  | nil => exact absurd h (by simp [closeSpan])
  | cons c cs ih =>
    rw [closeSpan] at h
    split at h
    · obtain rfl := Option.some.inj h
      exact List.prefix_append [c] cs
    · obtain ⟨rest, hrest, rfl⟩ := Option.map_eq_some_iff.mp h
      exact List.cons_prefix_cons.mpr ⟨rfl, ih hrest⟩

/-- Where nothing closes no span ends. -/
theorem closeSpan_eq_none {cs : List Char} (h : ∀ c ∈ cs, closesValue c = false) (s : Scan) :
    closeSpan s cs = none := by
  induction cs generalizing s with
  | nil => rfl
  | cons c cs ih =>
    have hc := h c List.mem_cons_self
    rw [closeSpan_cons fun _ hclose => absurd hclose (by simp [hc]),
      ih fun d hd => h d (List.mem_cons_of_mem c hd), Option.map_none]

/-- A text without closing brackets after it makes no difference to the scan. -/
theorem closeSpan_append {tail : List Char} (h : ∀ c ∈ tail, closesValue c = false) (s : Scan)
    (cs : List Char) : closeSpan s (cs ++ tail) = closeSpan s cs := by
  induction cs generalizing s with
  | nil => exact closeSpan_eq_none h s
  | cons c cs ih => rw [List.cons_append, closeSpan, closeSpan, ih]

end PlanRunner.Extraction
