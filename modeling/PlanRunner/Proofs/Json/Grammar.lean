import PlanRunner.Proofs.Json.Token

/-!
# PlanRunner — the grammar of JSON texts

The texts of JSON values, given by a grammar beside the reader. The reader takes from the front of a
text exactly what the grammar makes of a value, and for an array or an object it does not matter what
comes after it. The grammar does not bound the fuel; the reader has enough of it for every text.

* `ValueText` — the texts of a value with so many containers inside one another;
* `readsTexts` — what is read is a text of the value, and the rest is left;
* `ValueText.parseValue` — a text of a value is read, and what comes after it is left;
* `parseWritten?_eq_some_iff` — a whole text is one of the value between white space;
* `parse?_eq_some_iff_containerText` — the same for arrays and objects with their fields in order.
-/

namespace PlanRunner.Json

/-- White space between the parts of a value. -/
def IsGap (cs : List Char) : Prop := ∀ c ∈ cs, isGap c = true

/-- A field: its name without the opening quote, its value, and the white space around them. -/
def fieldText (start name before gap value stop : List Char) : List Char :=
  start ++ '"' :: (name ++ (before ++ ':' :: (gap ++ (value ++ stop))))

theorem fieldText_append (start name before gap value stop after : List Char) :
    fieldText start name before gap value stop ++ after =
      start ++ '"' :: (name ++ (before ++ ':' :: (gap ++ (value ++ (stop ++ after))))) := by
  simp [fieldText]

mutual

/-- The texts of a value without white space around it and with at most `depth` containers inside
one another. -/
inductive ValueText : Nat → Json → List Char → Prop where
  | null {depth : Nat} : ValueText depth .null ['n', 'u', 'l', 'l']
  | true {depth : Nat} : ValueText depth (.bool true) ['t', 'r', 'u', 'e']
  | false {depth : Nat} : ValueText depth (.bool false) ['f', 'a', 'l', 's', 'e']
  | number {depth : Nat} {json : Json} {cs : List Char} (h : NumberText json cs) :
      ValueText depth json cs
  | str {depth : Nat} {s cs : List Char} (h : StringText s cs) :
      ValueText depth (.str (String.ofList s)) ('"' :: cs)
  | noElems {depth : Nat} {gap : List Char} (hgap : IsGap gap) :
      ValueText (depth + 1) (.arr []) ('[' :: (gap ++ [']']))
  | elems {depth : Nat} {es : List Json} {cs : List Char} (h : ElemsText depth es cs) :
      ValueText (depth + 1) (.arr es) ('[' :: cs)
  | noFields {depth : Nat} {gap : List Char} (hgap : IsGap gap) :
      ValueText (depth + 1) (.obj []) ('{' :: (gap ++ ['}']))
  | fields {depth : Nat} {fs : List (String × Json)} {cs : List Char} (h : FieldsText depth fs cs) :
      ValueText (depth + 1) (.obj fs) ('{' :: cs)

/-- The texts of the elements of an array, with the closing bracket. -/
inductive ElemsText : Nat → List Json → List Char → Prop where
  | last {depth : Nat} {e : Json} {start cs stop : List Char} (hstart : IsGap start)
      (he : ValueText depth e cs) (hstop : IsGap stop) :
      ElemsText depth [e] (start ++ (cs ++ (stop ++ [']'])))
  | more {depth : Nat} {e : Json} {es : List Json} {start cs stop rest : List Char}
      (hstart : IsGap start) (he : ValueText depth e cs) (hstop : IsGap stop)
      (hes : ElemsText depth es rest) :
      ElemsText depth (e :: es) (start ++ (cs ++ (stop ++ ',' :: rest)))

/-- The texts of the fields of an object, with the closing brace. -/
inductive FieldsText : Nat → List (String × Json) → List Char → Prop where
  | last {depth : Nat} {key : List Char} {v : Json} {start name before gap cs stop : List Char}
      (hstart : IsGap start) (hkey : StringText key name) (hbefore : IsGap before)
      (hgap : IsGap gap) (hv : ValueText depth v cs) (hstop : IsGap stop) :
      FieldsText depth [(String.ofList key, v)] (fieldText start name before gap cs stop ++ ['}'])
  | more {depth : Nat} {key : List Char} {v : Json} {fs : List (String × Json)}
      {start name before gap cs stop rest : List Char}
      (hstart : IsGap start) (hkey : StringText key name) (hbefore : IsGap before)
      (hgap : IsGap gap) (hv : ValueText depth v cs) (hstop : IsGap stop)
      (hfs : FieldsText depth fs rest) :
      FieldsText depth ((String.ofList key, v) :: fs)
        (fieldText start name before gap cs stop ++ ',' :: rest)

end

theorem IsGap.nil : IsGap [] := by simp [IsGap]

/-- Gaps can be put together. -/
theorem IsGap.append {cs ds : List Char} (hcs : IsGap cs) (hds : IsGap ds) : IsGap (cs ++ ds) :=
  List.forall_mem_append.mpr ⟨hcs, hds⟩

/-- White space before the first element is part of the elements. -/
theorem ElemsText.gap_append {depth : Nat} {es : List Json} {gap cs : List Char} (hgap : IsGap gap)
    (h : ElemsText depth es cs) : ElemsText depth es (gap ++ cs) := by
  cases h with
  | last hstart he hstop =>
    rw [← List.append_assoc]
    exact .last (hgap.append hstart) he hstop
  | more hstart he hstop hes =>
    rw [← List.append_assoc]
    exact .more (hgap.append hstart) he hstop hes

/-- White space before the first field is part of the fields. -/
theorem FieldsText.gap_append {depth : Nat} {fs : List (String × Json)} {gap cs : List Char}
    (hgap : IsGap gap) (h : FieldsText depth fs cs) : FieldsText depth fs (gap ++ cs) := by
  cases h with
  | last hstart hkey hbefore hgap' hv hstop =>
    rw [fieldText_append, ← List.append_assoc, ← fieldText_append]
    exact .last (hgap.append hstart) hkey hbefore hgap' hv hstop
  | more hstart hkey hbefore hgap' hv hstop hfs =>
    rw [fieldText_append, ← List.append_assoc, ← fieldText_append]
    exact .more (hgap.append hstart) hkey hbefore hgap' hv hstop hfs

-- ---------------------------------------------------------------------------
-- What is read is in the grammar
-- ---------------------------------------------------------------------------

/-- A word that was read stood at the front. -/
theorem word?_eq_some {word cs rest : List Char} (h : word? word cs = some rest) :
    cs = word ++ rest := by
  unfold word? at h
  split at h
  · rename_i hprefix
    obtain ⟨tail, rfl⟩ := List.isPrefixOf_iff_prefix.mp hprefix
    obtain rfl := Option.some.inj h
    rw [List.drop_left]
  · exact absurd h (by simp)

/-- With so much fuel, what is read is in the grammar. -/
structure ReadsTexts (fuel : Nat) : Prop where
  value : ∀ {depth : Nat} {cs rest : List Char} {json : Json},
    parseValue fuel depth cs = some (json, rest) →
      ∃ used, cs = used ++ rest ∧ ValueText depth json used
  elems : ∀ {depth : Nat} {cs rest : List Char} {es : List Json},
    parseElems fuel depth cs = some (es, rest) →
      ∃ used, cs = used ++ rest ∧ ElemsText depth es used
  fields : ∀ {depth : Nat} {cs rest : List Char} {fs : List (String × Json)},
    parseFields fuel depth cs = some (fs, rest) →
      ∃ used, cs = used ++ rest ∧ FieldsText depth fs used

/-- A value that was read, with one step of fuel more, has the text of a value. -/
theorem ReadsTexts.parseValue {fuel : Nat} (h : ReadsTexts fuel) {depth : Nat}
    {cs rest : List Char} {json : Json}
    (hparse : Json.parseValue (fuel + 1) depth cs = some (json, rest)) :
    ∃ used, cs = used ++ rest ∧ ValueText depth json used := by
  -- by the first character: a word, a string, an array, an object or a number
  unfold Json.parseValue at hparse
  split at hparse
  · exact absurd hparse (by simp)
  · obtain ⟨_, hword, hjson⟩ := Option.map_eq_some_iff.mp hparse
    obtain ⟨rfl, rfl⟩ := Prod.mk.inj hjson
    exact ⟨_, word?_eq_some hword, .null⟩
  · obtain ⟨_, hword, hjson⟩ := Option.map_eq_some_iff.mp hparse
    obtain ⟨rfl, rfl⟩ := Prod.mk.inj hjson
    exact ⟨_, word?_eq_some hword, .true⟩
  · obtain ⟨_, hword, hjson⟩ := Option.map_eq_some_iff.mp hparse
    obtain ⟨rfl, rfl⟩ := Prod.mk.inj hjson
    exact ⟨_, word?_eq_some hword, .false⟩
  · obtain ⟨⟨_, _⟩, hstring, hjson⟩ := Option.map_eq_some_iff.mp hparse
    obtain ⟨rfl, rfl⟩ := Prod.mk.inj hjson
    obtain ⟨used, read, rfl, rfl, htext⟩ := stringText_of_parseString hstring
    exact ⟨'"' :: used, rfl, .str htext⟩
  · rename_i tail
    obtain ⟨gap, hgap, htail⟩ := exists_gap tail
    split at hparse
    · exact absurd hparse (by simp)
    · split at hparse
      · rename_i hclose
        obtain ⟨rfl, rfl⟩ := Prod.mk.inj (Option.some.inj hparse)
        rw [hclose] at htail
        exact ⟨'[' :: (gap ++ [']']), by simp [htail], .noElems hgap⟩
      · obtain ⟨_, helems, hjson⟩ := Option.map_eq_some_iff.mp hparse
        obtain ⟨rfl, rfl⟩ := Prod.mk.inj hjson
        obtain ⟨used, hused, htext⟩ := h.elems helems
        rw [hused] at htail
        exact ⟨'[' :: (gap ++ used), by simp [htail], .elems (htext.gap_append hgap)⟩
  · rename_i tail
    obtain ⟨gap, hgap, htail⟩ := exists_gap tail
    split at hparse
    · exact absurd hparse (by simp)
    · split at hparse
      · rename_i hclose
        obtain ⟨rfl, rfl⟩ := Prod.mk.inj (Option.some.inj hparse)
        rw [hclose] at htail
        exact ⟨'{' :: (gap ++ ['}']), by simp [htail], .noFields hgap⟩
      · obtain ⟨_, hfields, hjson⟩ := Option.map_eq_some_iff.mp hparse
        obtain ⟨rfl, rfl⟩ := Prod.mk.inj hjson
        obtain ⟨used, hused, htext⟩ := h.fields hfields
        rw [hused] at htail
        exact ⟨'{' :: (gap ++ used), by simp [htail], .fields (htext.gap_append hgap)⟩
  · obtain ⟨used, rfl, htext⟩ := numberText_of_parseNumber hparse
    exact ⟨used, rfl, .number htext⟩

/-- The elements of an array have the texts of values, between their commas. -/
theorem ReadsTexts.parseElems {fuel : Nat} (h : ReadsTexts fuel) {depth : Nat}
    {cs rest : List Char} {es : List Json}
    (hparse : Json.parseElems (fuel + 1) depth cs = some (es, rest)) :
    ∃ used, cs = used ++ rest ∧ ElemsText depth es used := by
  obtain ⟨start, hstart, hcs⟩ := exists_gap cs
  unfold Json.parseElems at hparse
  split at hparse
  · exact absurd hparse (by simp)
  · rename_i tail hvalue
    obtain ⟨value, hskip, hvalueText⟩ := h.value hvalue
    obtain ⟨stop, hstop, htail⟩ := exists_gap tail
    rw [hskip] at hcs
    split at hparse
    · rename_i hclose
      obtain ⟨rfl, rfl⟩ := Prod.mk.inj (Option.some.inj hparse)
      rw [hclose] at htail
      exact ⟨_, by simp [hcs, htail], .last hstart hvalueText hstop⟩
    · rename_i hcomma
      obtain ⟨_, helems, hjson⟩ := Option.map_eq_some_iff.mp hparse
      obtain ⟨rfl, rfl⟩ := Prod.mk.inj hjson
      obtain ⟨used, rfl, helemsText⟩ := h.elems helems
      rw [hcomma] at htail
      exact ⟨_, by simp [hcs, htail], .more hstart hvalueText hstop helemsText⟩
    · exact absurd hparse (by simp)

/-- The fields of an object have the texts of fields. -/
theorem ReadsTexts.parseFields {fuel : Nat} (h : ReadsTexts fuel) {depth : Nat}
    {cs rest : List Char} {fs : List (String × Json)}
    (hparse : Json.parseFields (fuel + 1) depth cs = some (fs, rest)) :
    ∃ used, cs = used ++ rest ∧ FieldsText depth fs used := by
  obtain ⟨start, hstart, hcs⟩ := exists_gap cs
  unfold Json.parseFields at hparse
  split at hparse
  · rename_i hquote
    split at hparse
    · exact absurd hparse (by simp)
    · rename_i colon hkey
      -- the name, the colon, the value and what ends it, each with the white space before it
      obtain ⟨name, key, rfl, rfl, hkeyText⟩ := stringText_of_parseString hkey
      obtain ⟨before, hbefore, hcolon⟩ := exists_gap colon
      split at hparse
      · rename_i value hmark
        obtain ⟨after, hafter, hvalueGap⟩ := exists_gap value
        split at hparse
        · exact absurd hparse (by simp)
        · rename_i tail hvalue
          obtain ⟨text, hskip, hvalueText⟩ := h.value hvalue
          obtain ⟨stop, hstop, htail⟩ := exists_gap tail
          rw [hmark] at hcolon
          rw [hskip] at hvalueGap
          rw [hquote, hcolon, hvalueGap] at hcs
          split at hparse
          · rename_i hclose
            obtain ⟨rfl, rfl⟩ := Prod.mk.inj (Option.some.inj hparse)
            rw [hclose] at htail
            exact ⟨_, by simp [fieldText, hcs, htail],
              .last hstart hkeyText hbefore hafter hvalueText hstop⟩
          · rename_i hcomma
            obtain ⟨_, hfields, hjson⟩ := Option.map_eq_some_iff.mp hparse
            obtain ⟨rfl, rfl⟩ := Prod.mk.inj hjson
            obtain ⟨used, rfl, hfieldsText⟩ := h.fields hfields
            rw [hcomma] at htail
            exact ⟨_, by simp [fieldText, hcs, htail],
              .more hstart hkeyText hbefore hafter hvalueText hstop hfieldsText⟩
          · exact absurd hparse (by simp)
      · exact absurd hparse (by simp)
  · exact absurd hparse (by simp)

/-- So whatever the parser reads is in the grammar, by induction on the fuel. -/
theorem readsTexts (fuel : Nat) : ReadsTexts fuel := by
  induction fuel with
  | zero =>
    refine ⟨fun h => ?_, fun h => ?_, fun h => ?_⟩
    · exact absurd h (by simp [parseValue])
    · exact absurd h (by simp [parseElems])
    · exact absurd h (by simp [parseFields])
  | succ fuel ih => exact ⟨ih.parseValue, ih.parseElems, ih.parseFields⟩

-- ---------------------------------------------------------------------------
-- What is in the grammar is read
-- ---------------------------------------------------------------------------

/-- The characters that a value starts with are no white space and no closing bracket. -/
def Starts (c : Char) : Prop := isGap c = false ∧ c ≠ ']' ∧ c ≠ '}'

/-- A number starts a value: it is neither white space nor a mark. -/
theorem starts_of_isNumeric {c : Char} (h : isNumeric c = true) : Starts c := by
  refine ⟨?_, ?_, ?_⟩
  · simp only [isGap, Bool.or_eq_false_iff, beq_eq_false_iff_ne]
    refine ⟨⟨⟨?_, ?_⟩, ?_⟩, ?_⟩
    all_goals
      rintro rfl
      exact absurd h (by decide)
  · rintro rfl
    exact absurd h (by decide)
  · rintro rfl
    exact absurd h (by decide)

/-- The text of a value starts with a character that is neither white space nor closes a container.
-/
theorem ValueText.head {depth : Nat} {json : Json} {cs : List Char} (h : ValueText depth json cs) :
    ∃ c tail, cs = c :: tail ∧ Starts c := by
  cases h with
  | number h =>
    obtain ⟨c, tail, rfl⟩ := List.exists_cons_of_ne_nil h.ne_nil
    exact ⟨c, tail, rfl, starts_of_isNumeric (h.numeric c List.mem_cons_self)⟩
  | null | true | false | str | noElems | elems | noFields | fields =>
    exact ⟨_, _, rfl, by simp [Starts, isGap]⟩

/-- White space before a value is skipped. -/
theorem ValueText.skipGap {depth : Nat} {json : Json} {cs start : List Char}
    (h : ValueText depth json cs) (hstart : IsGap start) (after : List Char) :
    Json.skipGap (start ++ (cs ++ after)) = cs ++ after := by
  obtain ⟨c, tail, rfl, hc, -⟩ := h.head
  rw [skipGap_append hstart]
  exact skipGap_cons hc _

theorem isNumeric_of_isGap {c : Char} (h : isGap c = true) : isNumeric c = false := by
  rcases isGap_iff.mp h with rfl | rfl | rfl | rfl <;> decide

/-- After a value in a container come white space and a mark, and no number goes on with them. -/
theorem endsNumber_gap_append {gap : List Char} (hgap : IsGap gap) {c : Char}
    (hc : isNumeric c = false) (after : List Char) : EndsNumber (gap ++ c :: after) := by
  refine forall_mem_head?_append (fun d hd => ?_) fun d hd => ?_
  · exact isNumeric_of_isGap (hgap d (List.mem_of_mem_head? hd))
  · obtain rfl := Option.some.inj hd
    exact hc

/-- White space before a mark is skipped, up to the mark. -/
theorem skipGap_mark {gap : List Char} (hgap : IsGap gap) {c : Char} (hc : isGap c = false)
    (after : List Char) : skipGap (gap ++ c :: after) = c :: after := by
  rw [skipGap_append hgap, skipGap_cons hc]

/-- Elements are read in the same way after their white space. -/
theorem parseElems_skipGap (fuel depth : Nat) (cs : List Char) :
    parseElems fuel depth (skipGap cs) = parseElems fuel depth cs := by
  cases fuel with
  | zero => rfl
  | succ fuel =>
    unfold parseElems
    rw [skipGap_skipGap]

/-- Fields are read in the same way after their white space. -/
theorem parseFields_skipGap (fuel depth : Nat) (cs : List Char) :
    parseFields fuel depth (skipGap cs) = parseFields fuel depth cs := by
  cases fuel with
  | zero => rfl
  | succ fuel =>
    unfold parseFields
    rw [skipGap_skipGap]

theorem word?_append (word after : List Char) : word? word (word ++ after) = some after := by
  rw [word?, if_pos (List.isPrefixOf_iff_prefix.mpr (List.prefix_append word after)),
    List.drop_left]

/-- A value that starts like a number is read as one. -/
theorem parseValue_of_isNumeric {c : Char} (hc : isNumeric c = true) (fuel depth : Nat)
    (cs : List Char) : parseValue (fuel + 1) depth (c :: cs) = parseNumber (c :: cs) := by
  unfold parseValue
  split
  case h_8 => rfl
  case h_1 heq => exact absurd heq (by simp)
  all_goals
    rename_i heq
    obtain ⟨rfl, -⟩ := List.cons.inj heq
    exact absurd hc (by decide)

/-- A bracket that is closed at once is an empty array. -/
theorem parseValue_noElems {gap : List Char} (hgap : IsGap gap) (fuel depth : Nat)
    (after : List Char) :
    parseValue (fuel + 1) (depth + 1) ('[' :: (gap ++ ']' :: after)) = some (.arr [], after) := by
  unfold parseValue
  simp only [skipGap_mark hgap (show isGap ']' = false by decide)]

/-- A brace that is closed at once is an empty object. -/
theorem parseValue_noFields {gap : List Char} (hgap : IsGap gap) (fuel depth : Nat)
    (after : List Char) :
    parseValue (fuel + 1) (depth + 1) ('{' :: (gap ++ '}' :: after)) = some (.obj [], after) := by
  unfold parseValue
  simp only [skipGap_mark hgap (show isGap '}' = false by decide)]

/-- Elements start with a value, after their white space. -/
theorem ElemsText.head {depth : Nat} {es : List Json} {cs : List Char}
    (h : ElemsText depth es cs) :
    ∃ start c tail, cs = start ++ c :: tail ∧ IsGap start ∧ isGap c = false ∧ c ≠ ']' := by
  cases h with
  | last hstart he | more hstart he =>
    obtain ⟨c, tail, rfl, hc, hclose, -⟩ := he.head
    exact ⟨_, c, _, rfl, hstart, hc, hclose⟩

/-- Fields start with a quote, after their white space. -/
theorem FieldsText.head {depth : Nat} {fs : List (String × Json)} {cs : List Char}
    (h : FieldsText depth fs cs) :
    ∃ start c tail, cs = start ++ c :: tail ∧ IsGap start ∧ isGap c = false ∧ c ≠ '}' := by
  cases h with
  | last hstart | more hstart =>
    rw [fieldText_append]
    exact ⟨_, '"', _, rfl, hstart, by decide, by decide⟩

/-- An array that is not empty is read by its elements. -/
theorem ElemsText.parseValue {depth : Nat} {es : List Json} {cs : List Char}
    (h : ElemsText depth es cs) (fuel : Nat) (after : List Char) :
    Json.parseValue (fuel + 1) (depth + 1) ('[' :: (cs ++ after)) =
      (Json.parseElems fuel depth (cs ++ after)).map fun (es, rest) => (.arr es, rest) := by
  obtain ⟨start, c, tail, rfl, hstart, hc, hclose⟩ := h.head
  rw [List.append_assoc, List.cons_append, ← parseElems_skipGap, Json.parseValue,
    skipGap_mark hstart hc]
  dsimp only
  split
  · rename_i heq
    exact absurd (List.cons.inj heq).1 hclose
  · rfl

/-- An object that is not empty is read by its fields. -/
theorem FieldsText.parseValue {depth : Nat} {fs : List (String × Json)} {cs : List Char}
    (h : FieldsText depth fs cs) (fuel : Nat) (after : List Char) :
    Json.parseValue (fuel + 1) (depth + 1) ('{' :: (cs ++ after)) =
      (Json.parseFields fuel depth (cs ++ after)).map fun (fs, rest) => (.obj fs, rest) := by
  obtain ⟨start, c, tail, rfl, hstart, hc, hclose⟩ := h.head
  rw [List.append_assoc, List.cons_append, ← parseFields_skipGap, Json.parseValue,
    skipGap_mark hstart hc]
  dsimp only
  split
  · rename_i heq
    exact absurd (List.cons.inj heq).1 hclose
  · rfl

theorem NumberText.isContainer {json : Json} {cs : List Char} (h : NumberText json cs) :
    json.isContainer = false :=
  isContainer_of_parseNumber (h.takes [] (by simp [EndsNumber]))

/-- The text of a string is fuel enough to read it. -/
theorem StringText.parseString_self {read cs : List Char} (h : StringText read cs)
    (after : List Char) :
    Json.parseString ((cs ++ after).length + 1) [] (cs ++ after) =
      some (String.ofList read, after) :=
  h.parseString (by simp; omega) [] after

-- Every call of a reader takes a character or is followed by one that does, so fuel for two calls a
-- character lasts to the end.

mutual

/-- A text of a value is read, and what comes after it is left. Only after a number it matters what
that is. -/
theorem ValueText.parseValue {depth : Nat} {json : Json} {cs : List Char}
    (h : ValueText depth json cs) {fuel : Nat} (hfuel : 2 * cs.length ≤ fuel) {after : List Char}
    (hafter : json.isContainer = true ∨ EndsNumber after) :
    Json.parseValue fuel depth (cs ++ after) = some (json, after) := by
  -- two steps of fuel for each character: one for a value and one for what comes after it in a
  -- container
  obtain ⟨fuel, rfl⟩ : ∃ n, fuel = n + 1 := by
    obtain ⟨c, tail, rfl, -⟩ := h.head
    exact ⟨fuel - 1, by simp at hfuel; omega⟩
  cases h with
  | null => exact congrArg (Option.map _) (word?_append ['n', 'u', 'l', 'l'] after)
  | true => exact congrArg (Option.map _) (word?_append ['t', 'r', 'u', 'e'] after)
  | false => exact congrArg (Option.map _) (word?_append ['f', 'a', 'l', 's', 'e'] after)
  | number h =>
    obtain ⟨c, tail, rfl⟩ := List.exists_cons_of_ne_nil h.ne_nil
    rw [List.cons_append, parseValue_of_isNumeric (h.numeric c List.mem_cons_self)]
    exact h.takes after (hafter.resolve_left (by simp [h.isContainer]))
  | @str _ s cs h =>
    exact congrArg (Option.map _) (h.parseString_self after)
  | noElems hgap => simpa using parseValue_noElems hgap fuel _ after
  | noFields hgap => simpa using parseValue_noFields hgap fuel _ after
  | elems h =>
    rw [List.cons_append, h.parseValue, h.parseElems (by simp at hfuel; omega)]
    rfl
  | fields h =>
    rw [List.cons_append, h.parseValue, h.parseFields (by simp at hfuel; omega)]
    rfl

/-- Texts of elements are read as those elements. -/
theorem ElemsText.parseElems {depth : Nat} {es : List Json} {cs : List Char}
    (h : ElemsText depth es cs) {fuel : Nat} (hfuel : 2 * cs.length + 1 ≤ fuel)
    (after : List Char) : Json.parseElems fuel depth (cs ++ after) = some (es, after) := by
  obtain ⟨fuel, rfl⟩ : ∃ n, fuel = n + 1 := ⟨fuel - 1, by omega⟩
  cases h with
  | @last _ e start cs stop hstart he hstop =>
    -- what follows a value in a container is a mark, which no number goes on with
    have hvalue : Json.parseValue fuel depth (cs ++ (stop ++ ']' :: after)) = some (e, _) :=
      he.parseValue (by simp at hfuel; omega) (.inr (endsNumber_gap_append hstop (by decide) after))
    simp only [List.append_assoc, List.cons_append, List.nil_append]
    unfold Json.parseElems
    rw [he.skipGap hstart, hvalue]
    simp only [skipGap_mark hstop (show isGap ']' = false by decide)]
  | @more _ e es start cs stop rest hstart he hstop hes =>
    have hvalue : Json.parseValue fuel depth (cs ++ (stop ++ ',' :: (rest ++ after))) = some (e, _) :=
      he.parseValue (by simp at hfuel; omega) (.inr (endsNumber_gap_append hstop (by decide) _))
    have helems : Json.parseElems fuel depth (rest ++ after) = some (es, after) :=
      hes.parseElems (by simp at hfuel; omega) after
    simp only [List.append_assoc, List.cons_append]
    unfold Json.parseElems
    rw [he.skipGap hstart, hvalue]
    simp only [skipGap_mark hstop (show isGap ',' = false by decide), helems, Option.map_some]

/-- Texts of fields are read as those fields. -/
theorem FieldsText.parseFields {depth : Nat} {fs : List (String × Json)} {cs : List Char}
    (h : FieldsText depth fs cs) {fuel : Nat} (hfuel : 2 * cs.length + 1 ≤ fuel)
    (after : List Char) : Json.parseFields fuel depth (cs ++ after) = some (fs, after) := by
  obtain ⟨fuel, rfl⟩ : ∃ n, fuel = n + 1 := ⟨fuel - 1, by omega⟩
  cases h with
  | @last _ key v start name before gap cs stop hstart hkey hbefore hgap hv hstop =>
    have hvalue : Json.parseValue fuel depth (cs ++ (stop ++ '}' :: after)) = some (v, _) :=
      hv.parseValue (by simp [fieldText] at hfuel; omega)
        (.inr (endsNumber_gap_append hstop (by decide) after))
    rw [List.append_assoc, fieldText_append]
    unfold Json.parseFields
    simp only [skipGap_mark hstart (show isGap '"' = false by decide), hkey.parseString_self,
      skipGap_mark hbefore (show isGap ':' = false by decide), hv.skipGap hgap, List.cons_append,
      List.nil_append, hvalue, skipGap_mark hstop (show isGap '}' = false by decide)]
  | @more _ key v fs start name before gap cs stop rest hstart hkey hbefore hgap hv hstop hfs =>
    have hvalue : Json.parseValue fuel depth (cs ++ (stop ++ ',' :: (rest ++ after))) = some (v, _) :=
      hv.parseValue (by simp [fieldText] at hfuel; omega)
        (.inr (endsNumber_gap_append hstop (by decide) _))
    have hfields : Json.parseFields fuel depth (rest ++ after) = some (fs, after) :=
      hfs.parseFields (by simp [fieldText] at hfuel; omega) after
    rw [List.append_assoc, fieldText_append]
    unfold Json.parseFields
    simp only [skipGap_mark hstart (show isGap '"' = false by decide), hkey.parseString_self,
      skipGap_mark hbefore (show isGap ':' = false by decide), hv.skipGap hgap, List.cons_append,
      hvalue, skipGap_mark hstop (show isGap ',' = false by decide), hfields, Option.map_some]

end

/-- **A whole text is read as a value exactly if it is a text of the value between white space.** -/
theorem parseWritten?_eq_some_iff {cs : List Char} {json : Json} :
    parseWritten? cs = some json ↔
      ∃ start text stop, cs = start ++ (text ++ stop) ∧ IsGap start ∧ ValueText maxDepth json text ∧
        IsGap stop := by
  unfold parseWritten?
  -- what is read is in the grammar, and what is in the grammar is read
  constructor
  · intro h
    obtain ⟨start, hstart, hcs⟩ := exists_gap cs
    split at h
    · rename_i rest hparse
      obtain ⟨text, hskip, htext⟩ := (readsTexts _).value hparse
      obtain ⟨stop, hstop, hrest⟩ := exists_gap rest
      split at h
      · rename_i hempty
        obtain rfl := Option.some.inj h
        rw [List.isEmpty_iff.mp hempty, List.append_nil] at hrest
        rw [hskip, hrest] at hcs
        exact ⟨start, text, stop, hcs, hstart, htext, hstop⟩
      · exact absurd h (by simp)
    · exact absurd h (by simp)
  · rintro ⟨start, text, stop, rfl, hstart, htext, hstop⟩
    have hends : EndsNumber stop := fun c hc => isNumeric_of_isGap (hstop c (List.mem_of_mem_head? hc))
    rw [htext.skipGap hstart, htext.parseValue (by simp; omega) (.inr hends)]
    have hempty : skipGap stop = [] := List.dropWhile_eq_nil_iff.mpr hstop
    simp [hempty]

-- ---------------------------------------------------------------------------
-- Arrays and objects
-- ---------------------------------------------------------------------------

@[simp] theorem isContainer_sorted (json : Json) : json.sorted.isContainer = json.isContainer := by
  cases json <;> rfl

/-- The text of an array or an object without white space around it. -/
def ContainerText (json : Json) (cs : List Char) : Prop :=
  ∃ written, ValueText maxDepth written cs ∧ written.sorted = json ∧ written.isContainer = true

/-- A container is read exactly from its texts, with white space around them. -/
theorem parse?_eq_some_iff_containerText {cs : List Char} {json : Json}
    (hcontainer : json.isContainer = true) :
    parse? cs = some json ↔
      ∃ start text stop, cs = start ++ (text ++ stop) ∧ IsGap start ∧ ContainerText json text ∧
        IsGap stop := by
  constructor
  · intro h
    obtain ⟨written, hwritten, rfl⟩ := Option.map_eq_some_iff.mp h
    obtain ⟨start, text, stop, hcs, hstart, htext, hstop⟩ := parseWritten?_eq_some_iff.mp hwritten
    rw [isContainer_sorted] at hcontainer
    exact ⟨start, text, stop, hcs, hstart, ⟨written, htext, rfl, hcontainer⟩, hstop⟩
  · rintro ⟨start, text, stop, hcs, hstart, ⟨written, htext, rfl, -⟩, hstop⟩
    exact congrArg (Option.map Json.sorted)
      (parseWritten?_eq_some_iff.mpr ⟨start, text, stop, hcs, hstart, htext, hstop⟩)

/-- The text of a container is read as a container. -/
theorem ContainerText.isContainer {json : Json} {cs : List Char} (h : ContainerText json cs) :
    json.isContainer = true := by
  obtain ⟨written, -, rfl, hcontainer⟩ := h
  rwa [isContainer_sorted]

/-- The text of a container is read whole, with nothing left over. -/
theorem ContainerText.parse? {json : Json} {cs : List Char} (h : ContainerText json cs) :
    Json.parse? cs = some json :=
  (parse?_eq_some_iff_containerText h.isContainer).mpr
    ⟨[], cs, [], by simp, .nil, h, .nil⟩

end PlanRunner.Json
