import Mathlib.Data.List.DropRight
import PlanRunner.Json.Parser

/-!
# PlanRunner — the texts of numbers and strings in JSON

Which texts the reader takes as a number or as a string. A number ends where no character of a
number comes next; what comes after a string does not matter, because of its closing quote. Of an
escape only its outline is kept, which is what a scan that knows nothing of escapes has to get right.

* `numberText_of_parseNumber` — what is read as a number is read the same before other texts;
* `isContainer_of_parseNumber` — and it is no array and no object;
* `escapeText_of_escape?` — an escape, with the second half of a surrogate pair;
* `stringText_of_parseString`, `StringText.parseString` — the texts of strings are those that are
  read.
-/

namespace PlanRunner.Json

open PlanRunner.Number

-- ---------------------------------------------------------------------------
-- Runs of characters
-- ---------------------------------------------------------------------------

section Runs

variable {p : Char → Bool} {run rest : List Char}

/-- A run is taken whole, and no more, when what comes next does not go on with it. -/
theorem takeWhile_append_of_head (hrun : ∀ c ∈ run, p c = true)
    (hrest : ∀ c ∈ rest.head?, p c = false) : (run ++ rest).takeWhile p = run := by
  rw [List.takeWhile_append_of_pos hrun]
  cases rest with
  | nil => simp
  | cons c rest => simp [hrest c rfl]

/-- What is left after a run is what came next. -/
theorem dropWhile_append_of_head (hrun : ∀ c ∈ run, p c = true)
    (hrest : ∀ c ∈ rest.head?, p c = false) : (run ++ rest).dropWhile p = rest := by
  rw [List.dropWhile_append_of_pos hrun]
  cases rest with
  | nil => rfl
  | cons c rest => simp [hrest c rfl]

end Runs

theorem isGap_iff {c : Char} : isGap c = true ↔ c = ' ' ∨ c = '\t' ∨ c = '\n' ∨ c = '\r' := by
  simp [isGap, or_assoc]

/-- Any text is some white space and what is left after it is skipped. -/
theorem exists_gap (cs : List Char) :
    ∃ gap, (∀ c ∈ gap, isGap c = true) ∧ cs = gap ++ skipGap cs :=
  ⟨cs.takeWhile isGap, fun _ => List.mem_takeWhile_imp, List.takeWhile_append_dropWhile.symm⟩

/-- White space in front is skipped. -/
theorem skipGap_append {gap : List Char} (h : ∀ c ∈ gap, isGap c = true) (cs : List Char) :
    skipGap (gap ++ cs) = skipGap cs :=
  List.dropWhile_append_of_pos h

/-- Skipping stops at once where there is no white space. -/
theorem skipGap_cons {c : Char} (h : isGap c = false) (cs : List Char) :
    skipGap (c :: cs) = c :: cs := by
  simp [skipGap, h]

theorem skipGap_skipGap (cs : List Char) : skipGap (skipGap cs) = skipGap cs :=
  List.dropWhile_idempotent isGap cs

-- ---------------------------------------------------------------------------
-- Numbers
-- ---------------------------------------------------------------------------

/-- The characters of numbers. -/
def isNumeric (c : Char) : Bool :=
  c.isDigit || c == '-' || c == '+' || c == '.' || c == 'e' || c == 'E'

/-- No number goes on with this text. -/
def EndsNumber (cs : List Char) : Prop := ∀ c ∈ cs.head?, isNumeric c = false

/-- The first character of two texts is that of the first of them that is not empty. -/
theorem forall_mem_head?_append {P : Char → Prop} {xs ys : List Char} (hx : ∀ c ∈ xs.head?, P c)
    (hy : ∀ c ∈ ys.head?, P c) : ∀ c ∈ (xs ++ ys).head?, P c := by
  cases xs with
  | nil => exact hy
  | cons x xs => exact hx

/-- Where no number goes on, no digit comes. -/
theorem EndsNumber.notDigit {cs : List Char} (h : EndsNumber cs) :
    ∀ c ∈ cs.head?, c.isDigit = false := by
  intro c hc
  have := h c hc
  simp only [isNumeric, Bool.or_eq_false_iff] at this
  exact this.1.1.1.1.1

theorem isNumeric_of_isDigit {c : Char} (h : c.isDigit = true) : isNumeric c = true := by
  simp [isNumeric, h]

/-- A reader takes this text as this result wherever a text that meets a condition comes next. -/
def Takes {α : Type} (read : List Char → Option (α × List Char)) (next : List Char → Prop)
    (used : List Char) (a : α) : Prop :=
  ∀ after, next after → read (used ++ after) = some (a, after)

/-- The fraction of a number, if the text continues with one. -/
def fraction? (cs : List Char) : Option (Option (List Char) × List Char) :=
  match cs with
  | '.' :: tail =>
    let ds := tail.takeWhile Char.isDigit
    if ds.isEmpty then none else some (some ds, tail.dropWhile Char.isDigit)
  | _ => some (none, cs)

/-- The fraction of a number is read off its own characters, wherever no digit follows. -/
theorem fraction?_takes {cs rest : List Char} {fraction : Option (List Char)}
    (h : fraction? cs = some (fraction, rest)) :
    ∃ used, cs = used ++ rest ∧ (∀ c ∈ used, isNumeric c = true) ∧ (∀ c ∈ used.head?, c = '.') ∧
      Takes fraction? (fun after => ∀ c ∈ after.head?, c.isDigit = false ∧ c ≠ '.') used fraction := by
  unfold fraction? at h
  split at h
  · rename_i tail
    dsimp only at h
    split at h
    · exact absurd h (by simp)
    · rename_i hne
      obtain ⟨rfl, rfl⟩ := Prod.mk.inj (Option.some.inj h)
      -- the digits are taken greedily, so a text that starts with none leaves them as they are
      have hdigits : ∀ c ∈ tail.takeWhile Char.isDigit, c.isDigit = true :=
        fun _ => List.mem_takeWhile_imp
      refine ⟨'.' :: tail.takeWhile Char.isDigit, by simp, ?_, by simp, fun after hafter => ?_⟩
      · rw [List.forall_mem_cons]
        exact ⟨rfl, fun c hc => isNumeric_of_isDigit (hdigits c hc)⟩
      · have hstop : ∀ c ∈ after.head?, c.isDigit = false := fun c hc => (hafter c hc).1
        rw [List.cons_append, fraction?, takeWhile_append_of_head hdigits hstop,
          dropWhile_append_of_head hdigits hstop]
        exact if_neg hne
  · obtain ⟨rfl, rfl⟩ := Prod.mk.inj (Option.some.inj h)
    refine ⟨[], rfl, by simp, by simp, fun after hafter => ?_⟩
    cases after with
    | nil => rfl
    | cons c after =>
      rw [List.nil_append, fraction?.eq_def]
      split
      · rename_i heq
        exact absurd (List.cons.inj heq).1 (hafter c rfl).2
      · rfl

/-- The sign of an exponent, if there is one, and the text after it. -/
def exponentSign (cs : List Char) : Bool × List Char :=
  match cs with
  | '-' :: ds => (true, ds)
  | '+' :: ds => (false, ds)
  | _ => (false, cs)

/-- After the mark an exponent has a sign, maybe, and at least one digit. -/
theorem parseExponent_cons {c : Char} (hmark : c = 'e' ∨ c = 'E') (tail : List Char) :
    parseExponent (c :: tail) =
      if ((exponentSign tail).2.takeWhile Char.isDigit).isEmpty then none
      else some (some (if (exponentSign tail).1
          then -(digitsValue ((exponentSign tail).2.takeWhile Char.isDigit) : Int)
          else (digitsValue ((exponentSign tail).2.takeWhile Char.isDigit) : Int)),
        (exponentSign tail).2.dropWhile Char.isDigit) := by
  have hif : (decide (c = 'e') || decide (c = 'E')) = true := by simpa using hmark
  rw [parseExponent.eq_def]
  exact if_pos hif

/-- Without the mark there is no exponent. -/
theorem parseExponent_of_not_mark {cs : List Char} (h : ∀ c ∈ cs.head?, c ≠ 'e' ∧ c ≠ 'E') :
    parseExponent cs = some (none, cs) := by
  cases cs with
  | nil => rfl
  | cons c tail => simp [parseExponent, h c rfl]

/-- A digit is no sign. -/
theorem exponentSign_of_isDigit {cs : List Char} (h : ∃ c ∈ cs.head?, c.isDigit = true) :
    exponentSign cs = (false, cs) := by
  obtain ⟨c, hc, hdigit⟩ := h
  unfold exponentSign
  split
  · obtain rfl := Option.some.inj hc
    exact absurd hdigit (by decide)
  · obtain rfl := Option.some.inj hc
    exact absurd hdigit (by decide)
  · rfl

/-- The sign of an exponent is read off its own characters, if a digit follows. -/
theorem exponentSign_takes (cs : List Char) :
    ∃ used, cs = used ++ (exponentSign cs).2 ∧ (∀ c ∈ used, isNumeric c = true) ∧
      ∀ after, (∃ c ∈ after.head?, c.isDigit = true) →
        exponentSign (used ++ after) = ((exponentSign cs).1, after) := by
  unfold exponentSign
  split
  · exact ⟨['-'], rfl, by simp [isNumeric], fun _ _ => rfl⟩
  · exact ⟨['+'], rfl, by simp [isNumeric], fun _ _ => rfl⟩
  · exact ⟨[], rfl, by simp, fun _ hafter => exponentSign_of_isDigit hafter⟩

/-- The exponent of a number is read off its own characters, wherever no number goes on. -/
theorem parseExponent_takes {cs rest : List Char} {exponent : Option Int}
    (h : parseExponent cs = some (exponent, rest)) :
    ∃ used, cs = used ++ rest ∧ (∀ c ∈ used, isNumeric c = true) ∧
      (∀ c ∈ used.head?, c = 'e' ∨ c = 'E') ∧ Takes parseExponent EndsNumber used exponent := by
  -- with the mark the digits are as for a fraction; without it nothing is used
  by_cases hmark : ∃ c tail, cs = c :: tail ∧ (c = 'e' ∨ c = 'E')
  · obtain ⟨c, tail, rfl, hmark⟩ := hmark
    rw [parseExponent_cons hmark] at h
    obtain ⟨sign, htail, hsign, htakes⟩ := exponentSign_takes tail
    have hdigits : ∀ c ∈ (exponentSign tail).2.takeWhile Char.isDigit, c.isDigit = true :=
      fun _ => List.mem_takeWhile_imp
    rw [← List.takeWhile_append_dropWhile (p := Char.isDigit) (l := (exponentSign tail).2)] at htail
    split at h
    · exact absurd h (by simp)
    · rename_i hne
      obtain ⟨rfl, rfl⟩ := Prod.mk.inj (Option.some.inj h)
      generalize (exponentSign tail).2.takeWhile Char.isDigit = digits at hdigits htail hne ⊢
      have hfirst : ∀ after, ∃ d ∈ (digits ++ after).head?, d.isDigit = true := by
        intro after
        cases digits with
        | nil => exact absurd rfl hne
        | cons d digits => exact ⟨d, rfl, hdigits d List.mem_cons_self⟩
      refine ⟨c :: (sign ++ digits), by simpa using htail, ?_, by simpa using hmark,
        fun after hafter => ?_⟩
      · rw [List.forall_mem_cons, List.forall_mem_append]
        refine ⟨?_, hsign, fun d hd => isNumeric_of_isDigit (hdigits d hd)⟩
        rcases hmark with rfl | rfl
        · rfl
        · rfl
      · rw [List.cons_append, List.append_assoc, parseExponent_cons hmark, htakes _ (hfirst after),
          takeWhile_append_of_head hdigits hafter.notDigit,
          dropWhile_append_of_head hdigits hafter.notDigit, if_neg hne]
  · have hplain : ∀ c ∈ cs.head?, c ≠ 'e' ∧ c ≠ 'E' := by
      intro c hc
      obtain ⟨tail, rfl⟩ := List.head?_eq_some_iff.mp hc
      exact not_or.mp fun hor => hmark ⟨c, tail, rfl, hor⟩
    rw [parseExponent_of_not_mark hplain] at h
    obtain ⟨rfl, rfl⟩ := Prod.mk.inj (Option.some.inj h)
    refine ⟨[], rfl, by simp, by simp, fun after hafter => parseExponent_of_not_mark fun c hc => ?_⟩
    have := hafter c hc
    simp only [isNumeric, Bool.or_eq_false_iff, beq_eq_false_iff_ne] at this
    exact ⟨this.1.2, this.2⟩

/-- The value of a number from its digits, the digits of its fraction and its exponent. -/
def unsignedValue? (negative : Bool) (whole : List Char) (fraction : Option (List Char))
    (exponent : Option Int) : Option Json :=
  let start := wholeDigits ⟨0, 0⟩ whole
  let signed (x : Float) : Json := .float (if negative then -x else x)
  if fraction.isNone && exponent.isNone && start.exponent == 0 then
    some (if negative then
      if start.significand = 0 || Nat.pow 2 63 < start.significand then
        signed (Float.ofNat start.significand)
      else .int (-(start.significand : Int))
    else .int start.significand)
  else
    let scaled := fractionDigits start (fraction.getD [])
    (Scaled.toFloat? ⟨scaled.significand, scaled.exponent + exponent.getD 0⟩).map signed

/-- A number without its sign is read part by part. -/
theorem parseUnsigned_eq (negative : Bool) (cs : List Char) :
    parseUnsigned negative cs =
      if (cs.takeWhile Char.isDigit).isEmpty || ((cs.takeWhile Char.isDigit).head? == some '0' &&
          1 < (cs.takeWhile Char.isDigit).length) then none
      else
        (fraction? (cs.dropWhile Char.isDigit)).bind fun fraction =>
          (parseExponent fraction.2).bind fun exponent =>
            (unsignedValue? negative (cs.takeWhile Char.isDigit) fraction.1 exponent.1).map
              (·, exponent.2) := by
  unfold parseUnsigned
  dsimp only
  refine if_congr Iff.rfl rfl ?_
  change (fraction? (cs.dropWhile Char.isDigit)).bind _ = _
  -- the readers agree; what is left is how the number is made of the parts
  refine congrArg _ (funext fun fraction => congrArg _ (funext fun exponent => ?_))
  unfold unsignedValue?
  dsimp only
  split
  · split
    · split
      · rfl
      · rfl
    · rfl
  · rw [Option.map_map]
    rfl
/-- A number without its sign is read off its own characters, wherever no number goes on. -/
theorem parseUnsigned_takes {negative : Bool} {cs rest : List Char} {json : Json}
    (h : parseUnsigned negative cs = some (json, rest)) :
    ∃ used, cs = used ++ rest ∧ (∀ c ∈ used, isNumeric c = true) ∧
      (∃ c ∈ used.head?, c.isDigit = true) ∧ Takes (parseUnsigned negative) EndsNumber used json := by
  have hdigits : ∀ c ∈ cs.takeWhile Char.isDigit, c.isDigit = true := fun _ => List.mem_takeWhile_imp
  have hcs := (List.takeWhile_append_dropWhile (p := Char.isDigit) (l := cs)).symm
  rw [parseUnsigned_eq] at h
  -- from here on only the parts matter, not how they were cut out
  generalize cs.takeWhile Char.isDigit = whole at h hdigits hcs
  generalize cs.dropWhile Char.isDigit = point at h hcs
  split at h
  · exact absurd h (by simp)
  · rename_i hwhole
    obtain ⟨⟨fraction, mark⟩, hfraction, h⟩ := Option.bind_eq_some_iff.mp h
    obtain ⟨⟨exponent, _⟩, hexponent, h⟩ := Option.bind_eq_some_iff.mp h
    obtain ⟨_, hvalue, hjson⟩ := Option.map_eq_some_iff.mp h
    obtain ⟨rfl, rfl⟩ := Prod.mk.inj hjson
    obtain ⟨fs, rfl, hfs, hpoint, htakes⟩ := fraction?_takes hfraction
    obtain ⟨es, rfl, hes, hmark, htakes'⟩ := parseExponent_takes hexponent
    refine ⟨whole ++ (fs ++ es), ?_, ?_, ?_, fun after hafter => ?_⟩
    · rw [hcs]
      simp
    · rw [List.forall_mem_append, List.forall_mem_append]
      exact ⟨fun c hc => isNumeric_of_isDigit (hdigits c hc), hfs, hes⟩
    · cases whole with
      | nil => exact absurd rfl hwhole
      | cons d whole => exact ⟨d, rfl, hdigits d List.mem_cons_self⟩
    · -- the fraction and the exponent start with a mark, so the digits end where they did
      have hes' : ∀ c ∈ (es ++ after).head?, c.isDigit = false ∧ c ≠ '.' := by
        refine forall_mem_head?_append (fun c hc => ?_) fun c hc => ?_
        · rcases hmark c hc with rfl | rfl
          · decide
          · decide
        · exact ⟨hafter.notDigit c hc, fun heq => by simpa [heq, isNumeric] using hafter c hc⟩
      have hfs' : ∀ c ∈ (fs ++ (es ++ after)).head?, c.isDigit = false := by
        refine forall_mem_head?_append (fun c hc => ?_) fun c hc => (hes' c hc).1
        rw [hpoint c hc]
        decide
      rw [parseUnsigned_eq, List.append_assoc, List.append_assoc,
        takeWhile_append_of_head hdigits hfs', dropWhile_append_of_head hdigits hfs',
        if_neg hwhole, htakes _ hes', Option.bind_some, htakes' _ hafter, Option.bind_some, hvalue]
      rfl

/-- What is made of the parts of a number is a number. -/
theorem isContainer_of_unsignedValue? {negative : Bool} {whole : List Char}
    {fraction : Option (List Char)} {exponent : Option Int} {json : Json}
    (h : unsignedValue? negative whole fraction exponent = some json) : json.isContainer = false := by
  unfold unsignedValue? at h
  dsimp only at h
  split at h
  · obtain rfl := Option.some.inj h
    split_ifs <;> rfl
  · obtain ⟨x, -, rfl⟩ := Option.map_eq_some_iff.mp h
    rfl

/-- A number without its sign is no container. -/
theorem isContainer_of_parseUnsigned {negative : Bool} {cs rest : List Char} {json : Json}
    (h : parseUnsigned negative cs = some (json, rest)) : json.isContainer = false := by
  rw [parseUnsigned_eq] at h
  split at h
  · exact absurd h (by simp)
  · obtain ⟨_, -, h⟩ := Option.bind_eq_some_iff.mp h
    obtain ⟨_, -, h⟩ := Option.bind_eq_some_iff.mp h
    obtain ⟨_, hvalue, hjson⟩ := Option.map_eq_some_iff.mp h
    obtain ⟨rfl, -⟩ := Prod.mk.inj hjson
    exact isContainer_of_unsignedValue? hvalue

/-- Numbers are no containers. -/
theorem isContainer_of_parseNumber {cs rest : List Char} {json : Json}
    (h : parseNumber cs = some (json, rest)) : json.isContainer = false := by
  unfold parseNumber at h
  split at h
  · exact isContainer_of_parseUnsigned h
  · exact isContainer_of_parseUnsigned h

/-- The text of a number. -/
structure NumberText (json : Json) (cs : List Char) : Prop where
  ne_nil : cs ≠ []
  numeric : ∀ c ∈ cs, isNumeric c = true
  takes : Takes parseNumber EndsNumber cs json

/-- Whatever is read as a number has the text of a number. -/
theorem numberText_of_parseNumber {cs rest : List Char} {json : Json}
    (h : parseNumber cs = some (json, rest)) : ∃ used, cs = used ++ rest ∧ NumberText json used := by
  -- with a sign or without
  unfold parseNumber at h
  split at h
  · obtain ⟨used, rfl, hnumeric, -, htakes⟩ := parseUnsigned_takes h
    refine ⟨'-' :: used, rfl, List.cons_ne_nil _ _, ?_, htakes⟩
    rw [List.forall_mem_cons]
    exact ⟨rfl, hnumeric⟩
  · obtain ⟨used, rfl, hnumeric, ⟨c, hc, hdigit⟩, htakes⟩ := parseUnsigned_takes h
    obtain ⟨tail, rfl⟩ := List.head?_eq_some_iff.mp hc
    refine ⟨c :: tail, rfl, List.cons_ne_nil _ _, hnumeric, fun after hafter => ?_⟩
    rw [List.cons_append, parseNumber.eq_def]
    split
    · rename_i heq
      obtain ⟨rfl, -⟩ := List.cons.inj heq
      exact absurd hdigit (by decide)
    · exact htakes after hafter

-- ---------------------------------------------------------------------------
-- Strings
-- ---------------------------------------------------------------------------

/-- Characters that are plain in a string: no quote, no backslash and no control character. -/
def isPlain (c : Char) : Bool :=
  c != '"' && c != '\\' && 32 ≤ c.toNat

theorem isPlain_iff {c : Char} : isPlain c = true ↔ c ≠ '"' ∧ c ≠ '\\' ∧ 32 ≤ c.toNat := by
  simp [isPlain, and_assoc]

theorem le_toNat_of_isDigit {c : Char} (h : c.isDigit = true) : 48 ≤ c.toNat := by
  simp only [Char.isDigit, Bool.and_eq_true, decide_eq_true_eq] at h
  exact UInt32.le_iff_toNat_le.mp h.1

/-- Hexadecimal digits are plain characters. -/
theorem isPlain_of_hexValue? {c : Char} {n : Nat} (h : hexValue? c = some n) : isPlain c = true := by
  refine isPlain_iff.mpr ⟨?_, ?_, ?_⟩
  · rintro rfl
    exact absurd h (by simp [hexValue?])
  · rintro rfl
    exact absurd h (by simp [hexValue?])
  · unfold hexValue? at h
    simp only at h
    split at h
    · rename_i hdigit
      exact Nat.le_trans (by decide) (le_toNat_of_isDigit hdigit)
    · split at h
      · rename_i hrange
        simp only [Bool.and_eq_true, decide_eq_true_eq] at hrange
        omega
      · split at h
        · rename_i hrange
          simp only [Bool.and_eq_true, decide_eq_true_eq] at hrange
          omega
        · exact absurd h (by simp)

/-- Four hexadecimal digits are read as their unit, whatever follows. -/
theorem hexUnit?_takes {cs rest : List Char} {n : Nat} (h : hexUnit? cs = some (n, rest)) :
    ∃ used, cs = used ++ rest ∧ (∀ c ∈ used, isPlain c = true) ∧
      Takes hexUnit? (fun _ => True) used n := by
  unfold hexUnit? at h
  split at h
  · rename_i a b c d tail
    simp only [Option.bind_eq_bind, Option.bind_eq_some_iff, Option.pure_def, Option.some.injEq,
      Prod.mk.injEq] at h
    obtain ⟨x, hx, y, hy, z, hz, w, hw, rfl, rfl⟩ := h
    refine ⟨[a, b, c, d], rfl, ?_, fun after _ => ?_⟩
    · simp only [List.forall_mem_cons, List.not_mem_nil, false_imp_iff, implies_true, and_true]
      exact ⟨isPlain_of_hexValue? hx, isPlain_of_hexValue? hy, isPlain_of_hexValue? hz,
        isPlain_of_hexValue? hw⟩
    · simp [hexUnit?, hx, hy, hz, hw]
  · exact absurd h (by simp)

/-- The text of an escape after its backslash: any character that is no control character, plain
characters, and maybe a second escape of plain characters. -/
structure EscapeText (e : Char) (cs : List Char) : Prop where
  takes : Takes escape? (fun _ => True) cs e
  shape : ∃ c plain more, cs = c :: (plain ++ more) ∧ 32 ≤ c.toNat ∧
    (∀ d ∈ plain, isPlain d = true) ∧
    (more = [] ∨ ∃ plain', more = '\\' :: 'u' :: plain' ∧ ∀ d ∈ plain', isPlain d = true)

/-- Whatever is read as an escape of a code point has the text of an escape. -/
theorem escapeText_of_unicodeEscape? {cs rest : List Char} {e : Char}
    (h : unicodeEscape? cs = some (e, rest)) :
    ∃ used, cs = used ++ rest ∧ EscapeText e ('u' :: used) := by
  unfold unicodeEscape? at h
  split at h
  · exact absurd h (by simp)
  · rename_i unit tail hunit
    obtain ⟨plain, rfl, hplain, htakes⟩ := hexUnit?_takes hunit
    split at h
    · exact absurd h (by simp)
    · rename_i hlow
      split at h
      · -- the first of two surrogates takes a second escape after it
        rename_i hhigh
        split at h
        · rename_i tail'
          split at h
          · rename_i low tail'' hunit'
            obtain ⟨plain', rfl, hplain', htakes'⟩ := hexUnit?_takes hunit'
            split at h
            · rename_i hpair
              obtain ⟨rfl, rfl⟩ := Prod.mk.inj (Option.some.inj h)
              refine ⟨plain ++ '\\' :: 'u' :: plain', by simp, fun after _ => ?_, 'u', plain, _, rfl,
                by decide, hplain, .inr ⟨plain', rfl, hplain'⟩⟩
              rw [List.cons_append, List.append_assoc, escape?, unicodeEscape?, htakes _ trivial]
              simp [hlow, hhigh, htakes' after trivial, hpair]
            · exact absurd h (by simp)
          · exact absurd h (by simp)
        · exact absurd h (by simp)
      · rename_i hhigh
        obtain ⟨rfl, rfl⟩ := Prod.mk.inj (Option.some.inj h)
        refine ⟨plain, rfl, fun after _ => ?_, 'u', plain, [], by simp, by decide, hplain, .inl rfl⟩
        rw [List.cons_append, escape?, unicodeEscape?, htakes _ trivial]
        simp [hlow, hhigh]

/-- An escape of one character. -/
theorem EscapeText.short {c e : Char} (htakes : ∀ after, escape? (c :: after) = some (e, after))
    (hc : 32 ≤ c.toNat) : EscapeText e [c] :=
  ⟨fun after _ => htakes after, c, [], [], rfl, hc, by simp, .inl rfl⟩

/-- Whatever is read as an escape has the text of one. -/
theorem escapeText_of_escape? {cs rest : List Char} {e : Char} (h : escape? cs = some (e, rest)) :
    ∃ used, cs = used ++ rest ∧ EscapeText e used := by
  unfold escape? at h
  split at h
  case h_9 =>
    obtain ⟨used, rfl, hused⟩ := escapeText_of_unicodeEscape? h
    exact ⟨_, rfl, hused⟩
  case h_10 => exact absurd h (by simp)
  all_goals
    obtain ⟨rfl, rfl⟩ := Prod.mk.inj (Option.some.inj h)
    exact ⟨_, rfl, .short (fun _ => rfl) (by decide)⟩

/-- The text of a string after its opening quote, and what it stands for. -/
inductive StringText : List Char → List Char → Prop where
  | close : StringText [] ['"']
  | plain {c : Char} {s cs : List Char} (hc : isPlain c = true) (h : StringText s cs) :
      StringText (c :: s) (c :: cs)
  | escaped {e : Char} {used s cs : List Char} (he : EscapeText e used) (h : StringText s cs) :
      StringText (e :: s) ('\\' :: (used ++ cs))

/-- Whatever is read up to a closing quote has the text of a string. -/
theorem stringText_of_parseString {fuel : Nat} {seen cs rest : List Char} {s : String}
    (h : parseString fuel seen cs = some (s, rest)) :
    ∃ used read, cs = used ++ rest ∧ s = String.ofList (seen.reverse ++ read) ∧
      StringText read used := by
  -- Induction on the fuel, one character or escape at a time; what was seen before does not
  -- matter.
  induction fuel generalizing seen cs with
  | zero => exact absurd h (by simp [parseString])
  | succ fuel ih =>
    cases cs with
    | nil => exact absurd h (by simp [parseString])
    | cons c cs =>
      rw [parseString] at h
      split at h
      · rename_i hquote
        obtain ⟨rfl, rfl⟩ := Prod.mk.inj (Option.some.inj h)
        subst hquote
        exact ⟨['"'], [], rfl, by simp, .close⟩
      · rename_i hquote
        split at h
        · rename_i hslash
          subst hslash
          split at h
          · rename_i e tail he
            obtain ⟨used, rfl, hused⟩ := escapeText_of_escape? he
            obtain ⟨used', read, rfl, rfl, hread⟩ := ih h
            exact ⟨'\\' :: (used ++ used'), e :: read, by simp, by simp, .escaped hused hread⟩
          · exact absurd h (by simp)
        · rename_i hslash
          split at h
          · exact absurd h (by simp)
          · rename_i hcontrol
            obtain ⟨used, read, rfl, rfl, hread⟩ := ih h
            have hplain : isPlain c = true := isPlain_iff.mpr ⟨hquote, hslash, by omega⟩
            exact ⟨c :: used, c :: read, rfl, by simp, .plain hplain hread⟩

/-- The text of a string is read as that string, whatever follows, with as much fuel as it is long.
-/
theorem StringText.parseString {read cs : List Char} (h : StringText read cs) {fuel : Nat}
    (hfuel : cs.length ≤ fuel) (seen after : List Char) :
    Json.parseString fuel seen (cs ++ after) =
      some (String.ofList (seen.reverse ++ read), after) := by
  -- Induction on the text; every step of the parser uses up a character at least.
  induction h generalizing fuel seen with
  | close =>
    obtain ⟨fuel, rfl⟩ : ∃ n, fuel = n + 1 := ⟨fuel - 1, by simp at hfuel; omega⟩
    simp [Json.parseString]
  | @plain c s cs hc _ ih =>
    obtain ⟨hquote, hslash, hcontrol⟩ := isPlain_iff.mp hc
    obtain ⟨fuel, rfl⟩ : ∃ n, fuel = n + 1 := ⟨fuel - 1, by simp at hfuel; omega⟩
    rw [List.cons_append, Json.parseString, if_neg hquote, if_neg hslash, if_neg (by omega),
      ih (by simpa using hfuel)]
    simp
  | @escaped e used s cs he _ ih =>
    obtain ⟨fuel, rfl⟩ : ∃ n, fuel = n + 1 := ⟨fuel - 1, by simp at hfuel; omega⟩
    rw [List.cons_append, List.append_assoc, Json.parseString, if_neg (by decide), if_pos rfl,
      he.takes _ trivial]
    dsimp only
    rw [ih (by simp at hfuel; omega)]
    simp

end PlanRunner.Json
