import PlanRunner.Proofs.Json.Sound
import PlanRunner.Proofs.Number.Division

/-!
# PlanRunner — what is read is well-formed

Whatever text is read as JSON, the value that comes of it is well-formed. An integer that needs more
than 64 bits is read as another number, and a number that is too large for that is refused. Names
are put in order when the whole text has been read, and of fields with one name the last is kept.

* `Scaled.isFinite_of_toFloat?` — numbers with a fraction or an exponent are finite;
* `sound_of_parse?` — a text that is read as JSON gives a well-formed value.
-/

namespace PlanRunner.Json

open PlanRunner.Number

-- ---------------------------------------------------------------------------
-- Numbers
-- ---------------------------------------------------------------------------

/-- The significand never outgrows a word: digits that do not fit are dropped. -/
theorem wholeDigits_le {s : Scaled} (h : s.significand ≤ maxWord) (cs : List Char) :
    (wholeDigits s cs).significand ≤ maxWord := by
  induction cs generalizing s with
  | nil => exact h
  | cons c cs ih =>
    rw [wholeDigits]
    split
    · rename_i hfits
      exact ih hfits.2
    · exact ih h

/-- Nor does the significand outgrow a word after the point. -/
theorem fractionDigits_le {s : Scaled} (h : s.significand ≤ maxWord) (cs : List Char) :
    (fractionDigits s cs).significand ≤ maxWord := by
  induction cs generalizing s with
  | nil => exact h
  | cons c cs ih =>
    rw [fractionDigits]
    split
    · rename_i hfits
      exact ih hfits
    · exact h

theorem isFinite_ofWord {n : Nat} (h : n ≤ maxWord) : (Float.ofNat n).isFinite = true :=
  isFinite_ofNat (Nat.lt_of_le_of_lt h (by decide))

theorem isFinite_zero : (0.0 : Float).isFinite = true := by decide +kernel

/-- Dividing by powers of ten leaves a finite float finite. -/
theorem isFinite_lower {x : Float} (h : x.isFinite = true) (fuel : Nat) (e : Int) :
    (lower fuel x e).1.isFinite = true := by
  induction fuel generalizing x e with
  | zero => exact h
  | succ fuel ih =>
    rw [lower]
    split
    · exact ih (isFinite_div_powerOfTen h (by decide) (by decide)) _
    · exact h

/-- A scaled significand of 64 bits is a finite number, if it is one at all. -/
theorem Scaled.isFinite_of_toFloat? {s : Scaled} (hword : s.significand ≤ maxWord) {x : Float}
    (h : s.toFloat? = some x) : x.isFinite = true := by
  have hlower := isFinite_lower (isFinite_ofWord hword) 4 s.exponent
  unfold Scaled.toFloat? at h
  simp only at h
  split at h
  · obtain rfl := Option.some.inj h
    exact isFinite_zero
  · split at h
    · exact absurd h (by simp)
    · split at h
      · obtain rfl := Option.some.inj h
        exact isFinite_zero
      · split at h
        · -- the exponent is between -308 and -1 here
          obtain rfl := Option.some.inj h
          exact isFinite_div_powerOfTen hlower (by omega) (by omega)
        · split at h
          · rename_i hfinite
            obtain rfl := Option.some.inj h
            exact hfinite
          · exact absurd h (by simp)

theorem sound_float {x : Float} : (Json.float x).Sound ↔ x.isFinite = true := Iff.rfl

/-- A number that was read is sound: an integer of 64 bits, or a finite float. -/
theorem sound_parseUnsigned {negative : Bool} {cs rest : List Char} {json : Json}
    (h : parseUnsigned negative cs = some (json, rest)) : json.Sound := by
  -- the sign of a float changes nothing about its being finite
  have hsigned : ∀ {x : Float}, x.isFinite = true →
      (Json.float (if negative then -x else x)).Sound := by
    intro x hx
    cases negative with
    | true => exact sound_float.mpr (isFinite_neg hx)
    | false => exact sound_float.mpr hx
  unfold parseUnsigned at h
  simp only at h
  split at h
  · exact absurd h (by simp)
  · obtain ⟨⟨fraction, rest'⟩, -, h⟩ := Option.bind_eq_some_iff.mp h
    obtain ⟨⟨exponent, rest''⟩, -, h⟩ := Option.bind_eq_some_iff.mp h
    have hwhole := wholeDigits_le (s := ⟨0, 0⟩) (Nat.zero_le _) (cs.takeWhile Char.isDigit)
    have hword : maxWord < 2 ^ 64 := by decide
    simp only at h
    split at h
    · split at h
      · split at h
        · -- zero, or an integer below the least one of 64 bits
          obtain ⟨rfl, -⟩ := Prod.mk.inj (Option.some.inj h)
          exact sound_float.mpr (isFinite_neg (isFinite_ofWord hwhole))
        · rename_i hleast
          obtain ⟨rfl, -⟩ := Prod.mk.inj (Option.some.inj h)
          have hpow : Nat.pow 2 63 = 2 ^ 63 := rfl
          simp only [Bool.or_eq_true, decide_eq_true_eq, not_or, not_lt, hpow] at hleast
          rw [Sound]
          omega
      · obtain ⟨rfl, -⟩ := Prod.mk.inj (Option.some.inj h)
        rw [Sound]
        omega
    · obtain ⟨x, hx, h⟩ := Option.map_eq_some_iff.mp h
      obtain ⟨rfl, -⟩ := Prod.mk.inj h
      refine hsigned (Scaled.isFinite_of_toFloat? ?_ hx)
      exact fractionDigits_le hwhole _

/-- So is a number with its sign. -/
theorem sound_parseNumber {cs rest : List Char} {json : Json}
    (h : parseNumber cs = some (json, rest)) : json.Sound := by
  unfold parseNumber at h
  split at h
  · exact sound_parseUnsigned h
  · exact sound_parseUnsigned h

-- ---------------------------------------------------------------------------
-- Values
-- ---------------------------------------------------------------------------

/-- Setting a field to a sound value leaves sound fields. -/
theorem SoundFields.insertField {key : String} {value : Json} {fields : List (String × Json)}
    (hfields : SoundFields fields) (hvalue : value.Sound) :
    SoundFields (PlanRunner.insertField key value fields) := by
  induction fields with
  | nil => exact ⟨hvalue, trivial⟩
  | cons f fields ih =>
    rw [PlanRunner.insertField]
    split
    · exact ⟨hvalue, hfields⟩
    · split
      · exact ⟨hvalue, hfields.2⟩
      · exact ⟨hfields.1, ih hfields.2⟩

/-- Well-formed fields that are put in order, the last of each name, make a well-formed object. -/
theorem sound_ofFields {fields : List (String × Json)} (h : SoundFields fields) :
    (Json.ofFields fields).Sound := by
  have hfold : ∀ {fields acc : List (String × Json)}, SoundFields fields →
      SortedFields acc ∧ SoundFields acc →
      (Json.obj (fields.foldl (fun acc f => PlanRunner.insertField f.1 f.2 acc) acc)).Sound := by
    intro fields
    induction fields with
    | nil => exact fun _ hacc => hacc
    | cons f fields ih =>
      exact fun hfields hacc => ih hfields.2 ⟨hacc.1.insertField _ _, hacc.2.insertField hfields.1⟩
  exact hfold h ⟨List.Pairwise.nil, trivial⟩

/-- What is read, with the fields put in order, is well-formed. -/
structure Reads (fuel : Nat) : Prop where
  value : ∀ {depth : Nat} {cs rest : List Char} {json : Json},
    parseValue fuel depth cs = some (json, rest) → json.sorted.Sound
  elems : ∀ {depth : Nat} {cs rest : List Char} {elems : List Json},
    parseElems fuel depth cs = some (elems, rest) → SoundElems (sortedElems elems)
  fields : ∀ {depth : Nat} {cs rest : List Char} {fields : List (String × Json)},
    parseFields fuel depth cs = some (fields, rest) → SoundFields (sortedFields fields)

/-- A value that was read is sound once its fields are sorted, given that its parts are. -/
theorem Reads.parseValue {fuel : Nat} (h : Reads fuel) {depth : Nat} {cs rest : List Char}
    {json : Json} (hparse : Json.parseValue (fuel + 1) depth cs = some (json, rest)) :
    json.sorted.Sound := by
  unfold Json.parseValue at hparse
  split at hparse
  · exact absurd hparse (by simp)
  · obtain ⟨_, -, hjson⟩ := Option.map_eq_some_iff.mp hparse
    obtain ⟨rfl, -⟩ := Prod.mk.inj hjson
    trivial
  · obtain ⟨_, -, hjson⟩ := Option.map_eq_some_iff.mp hparse
    obtain ⟨rfl, -⟩ := Prod.mk.inj hjson
    trivial
  · obtain ⟨_, -, hjson⟩ := Option.map_eq_some_iff.mp hparse
    obtain ⟨rfl, -⟩ := Prod.mk.inj hjson
    trivial
  · obtain ⟨_, -, hjson⟩ := Option.map_eq_some_iff.mp hparse
    obtain ⟨rfl, -⟩ := Prod.mk.inj hjson
    trivial
  · split at hparse
    · exact absurd hparse (by simp)
    · split at hparse
      · obtain ⟨rfl, -⟩ := Prod.mk.inj (Option.some.inj hparse)
        trivial
      · obtain ⟨⟨elems, _⟩, helems, hjson⟩ := Option.map_eq_some_iff.mp hparse
        obtain ⟨rfl, -⟩ := Prod.mk.inj hjson
        exact h.elems helems
  · split at hparse
    · exact absurd hparse (by simp)
    · split at hparse
      · obtain ⟨rfl, -⟩ := Prod.mk.inj (Option.some.inj hparse)
        exact sound_ofFields trivial
      · obtain ⟨⟨fields, _⟩, hfields, hjson⟩ := Option.map_eq_some_iff.mp hparse
        obtain ⟨rfl, -⟩ := Prod.mk.inj hjson
        exact sound_ofFields (h.fields hfields)
  · have hsound := sound_parseNumber hparse
    rw [hsound.sorted]
    exact hsound

/-- Elements that were read are sound. -/
theorem Reads.parseElems {fuel : Nat} (h : Reads fuel) {depth : Nat} {cs rest : List Char}
    {elems : List Json} (hparse : Json.parseElems (fuel + 1) depth cs = some (elems, rest)) :
    SoundElems (sortedElems elems) := by
  unfold Json.parseElems at hparse
  split at hparse
  · exact absurd hparse (by simp)
  · rename_i hvalue
    split at hparse
    · obtain ⟨rfl, -⟩ := Prod.mk.inj (Option.some.inj hparse)
      exact ⟨h.value hvalue, trivial⟩
    · obtain ⟨⟨elems', _⟩, helems, hjson⟩ := Option.map_eq_some_iff.mp hparse
      obtain ⟨rfl, -⟩ := Prod.mk.inj hjson
      exact ⟨h.value hvalue, h.elems helems⟩
    · exact absurd hparse (by simp)

/-- Fields that were read are sound. -/
theorem Reads.parseFields {fuel : Nat} (h : Reads fuel) {depth : Nat} {cs rest : List Char}
    {fields : List (String × Json)}
    (hparse : Json.parseFields (fuel + 1) depth cs = some (fields, rest)) :
    SoundFields (sortedFields fields) := by
  unfold Json.parseFields at hparse
  split at hparse
  · split at hparse
    · exact absurd hparse (by simp)
    · split at hparse
      · split at hparse
        · exact absurd hparse (by simp)
        · rename_i hvalue
          split at hparse
          · obtain ⟨rfl, -⟩ := Prod.mk.inj (Option.some.inj hparse)
            exact ⟨h.value hvalue, trivial⟩
          · obtain ⟨⟨fields', _⟩, hfields, hjson⟩ := Option.map_eq_some_iff.mp hparse
            obtain ⟨rfl, -⟩ := Prod.mk.inj hjson
            exact ⟨h.value hvalue, h.fields hfields⟩
          · exact absurd hparse (by simp)
      · exact absurd hparse (by simp)
  · exact absurd hparse (by simp)

/-- Whatever the parser reads is sound, by induction on the fuel. -/
theorem reads (fuel : Nat) : Reads fuel := by
  induction fuel with
  | zero =>
    refine ⟨fun h => ?_, fun h => ?_, fun h => ?_⟩
    · exact absurd h (by simp [parseValue])
    · exact absurd h (by simp [parseElems])
    · exact absurd h (by simp [parseFields])
  | succ fuel ih => exact ⟨ih.parseValue, ih.parseElems, ih.parseFields⟩

/-- **A text that is read as JSON gives a well-formed value.** -/
theorem sound_of_parse? {cs : List Char} {json : Json} (h : parse? cs = some json) : json.Sound := by
  obtain ⟨written, hwritten, rfl⟩ := Option.map_eq_some_iff.mp h
  unfold parseWritten? at hwritten
  split at hwritten
  · rename_i hparse
    split at hwritten
    · obtain rfl := Option.some.inj hwritten
      exact (reads _).value hparse
    · exact absurd hwritten (by simp)
  · exact absurd hwritten (by simp)

end PlanRunner.Json
