import Mathlib.Data.List.DropRight
import PlanRunner.Proofs.Number.Nearest
import PlanRunner.Proofs.Run.Ledger
import PlanRunner.Value.Basic

/-!
# PlanRunner — well-formed JSON values

JSON values are data that other parts of the program take on trust: an integer has 64 bits, any
other number is finite, and an object has each name once and in order.

* `Json.Sound` — the values with these properties;
* `Json.Sound.sorted` — sorting the fields of such a value changes nothing;
* `Value.ofJson_record_ofJson` — a value that was read from JSON is what its stored form is read as.
-/

namespace PlanRunner

namespace Json

theorem isObject_iff {json : Json} : json.isObject = true ↔ ∃ fields, json = .obj fields := by
  cases json <;> simp [isObject]

mutual

/-- A well-formed value: an integer has 64 bits, signed or not, any other number is finite, and the
names of fields are in order, each of them once. -/
def Sound : Json → Prop
  | .null => True
  | .bool _ => True
  | .int n => -2 ^ 63 ≤ n ∧ n < 2 ^ 64
  | .float x => x.isFinite = true
  | .str _ => True
  | .arr elems => SoundElems elems
  | .obj fields => SortedFields fields ∧ SoundFields fields

def SoundElems : List Json → Prop
  | [] => True
  | e :: es => e.Sound ∧ SoundElems es

def SoundFields : List (String × Json) → Prop
  | [] => True
  | (_, v) :: fs => v.Sound ∧ SoundFields fs

end

mutual

def decideSound : (json : Json) → Decidable json.Sound
  | .null => .isTrue trivial
  | .bool _ => .isTrue trivial
  | .int n => inferInstanceAs (Decidable (-2 ^ 63 ≤ n ∧ n < 2 ^ 64))
  | .float x => inferInstanceAs (Decidable (x.isFinite = true))
  | .str _ => .isTrue trivial
  | .arr elems => decideSoundElems elems
  | .obj fields =>
    have : Decidable (SortedFields fields) :=
      inferInstanceAs (Decidable (List.Pairwise (· < ·) (fields.map Prod.fst)))
    have := decideSoundFields fields
    inferInstanceAs (Decidable (SortedFields fields ∧ SoundFields fields))

def decideSoundElems : (elems : List Json) → Decidable (SoundElems elems)
  | [] => .isTrue trivial
  | e :: es =>
    have := decideSound e
    have := decideSoundElems es
    inferInstanceAs (Decidable (e.Sound ∧ SoundElems es))

def decideSoundFields : (fields : List (String × Json)) → Decidable (SoundFields fields)
  | [] => .isTrue trivial
  | (_, v) :: fs =>
    have := decideSound v
    have := decideSoundFields fs
    inferInstanceAs (Decidable (v.Sound ∧ SoundFields fs))

end

instance : DecidablePred Sound := decideSound

/-- A field of sound fields is sound. -/
theorem SoundFields.field? {key : String} {json : Json} : ∀ {fields : List (String × Json)},
    SoundFields fields → field? key fields = some json → json.Sound
  | [], _, h => by simp [PlanRunner.field?] at h
  | (k, v) :: fields, hfields, h => by
    rw [SoundFields] at hfields
    rw [PlanRunner.field?] at h
    split at h
    · obtain rfl := Option.some.inj h
      exact hfields.1
    · exact hfields.2.field? h

/-- An element of sound elements is sound. -/
theorem SoundElems.of_mem {json : Json} : ∀ {elems : List Json}, SoundElems elems → json ∈ elems →
    json.Sound
  | e :: es, helems, h => by
    rcases List.mem_cons.mp h with rfl | h
    · exact helems.1
    · exact helems.2.of_mem h

/-- What is found in a sound object is sound. -/
theorem Sound.get? {key : String} {json value : Json} (hjson : json.Sound)
    (h : json.get? key = some value) : value.Sound := by
  unfold Json.get? at h
  split at h
  · exact hjson.2.field? h
  · exact absurd h (by simp)

-- ---------------------------------------------------------------------------
-- Sorting
-- ---------------------------------------------------------------------------

section Fields

variable {α : Type} {key : String} {value : α} {fields : List (String × α)}

/-- A field whose name comes last goes to the end. -/
theorem insertField_of_lt (h : ∀ name ∈ fields.map Prod.fst, name < key) :
    insertField key value fields = fields ++ [(key, value)] := by
  induction fields with
  | nil => rfl
  | cons f rest ih =>
    obtain ⟨k, v⟩ := f
    rw [List.map_cons, List.forall_mem_cons] at h
    rw [insertField, if_neg (lt_asymm h.1), if_neg (ne_of_gt h.1), ih h.2, List.cons_append]

/-- Fields that are sorted stay as they are. -/
theorem sortFields_eq_self (hs : SortedFields fields) : sortFields fields = fields := by
  -- the fields are inserted one by one, so the last goes behind all others
  induction fields using List.reverseRecOn with
  | nil => rfl
  | append_singleton fields f ih =>
    unfold SortedFields IdSet.Sorted at hs
    rw [List.map_append, List.map_singleton, List.pairwise_append] at hs
    obtain ⟨hfields, -, hlt⟩ := hs
    have hlast : sortFields (fields ++ [f]) = insertField f.1 f.2 (sortFields fields) := by
      rw [sortFields, List.foldl_append]
      rfl
    rw [hlast, ih hfields, insertField_of_lt fun name hname => hlt name hname _ List.mem_cons_self]

end Fields

mutual

/-- Sound values are sorted all through. -/
theorem Sound.sorted : ∀ {json : Json}, json.Sound → json.sorted = json
  | .arr elems, h => by
    rw [Json.sorted, SoundElems.sorted h]
  | .obj fields, h => by
    rw [Json.sorted, SoundFields.sorted h.2, ofFields, sortFields_eq_self h.1]
  | .null, _ => rfl
  | .bool _, _ => rfl
  | .int _, _ => rfl
  | .float _, _ => rfl
  | .str _, _ => rfl

/-- Sound elements are sorted. -/
theorem SoundElems.sorted : ∀ {elems : List Json}, SoundElems elems → sortedElems elems = elems
  | [], _ => rfl
  | e :: es, h => by
    rw [sortedElems, h.1.sorted, SoundElems.sorted h.2]

/-- Sound fields are sorted. -/
theorem SoundFields.sorted : ∀ {fields : List (String × Json)}, SoundFields fields →
    sortedFields fields = fields
  | [], _ => rfl
  | (k, v) :: fs, h => by
    rw [sortedFields, h.1.sorted, SoundFields.sorted h.2]

end

end Json

-- ---------------------------------------------------------------------------
-- Values
-- ---------------------------------------------------------------------------

namespace Value

open Json (Sound SoundElems SoundFields)

theorem map_fst_ofJsonFields (fields : List (String × Json)) :
    (ofJsonFields fields).map Prod.fst = fields.map Prod.fst := by
  induction fields with
  | nil => rfl
  | cons f fs ih => rw [ofJsonFields, List.map_cons, List.map_cons, ih]

theorem map_fst_recordFields (fields : List (String × Value)) :
    (recordFields fields).map Prod.fst = fields.map Prod.fst := by
  induction fields with
  | nil => rfl
  | cons f fs ih => rw [recordFields, List.map_cons, List.map_cons, ih]

/-- A finite number is recorded as it is. -/
theorem numberToRecord_of_isFinite {x : Float} (h : x.isFinite = true) :
    numberToRecord x = .float x := by
  rw [numberToRecord, if_pos h]

mutual

/-- The stored form of a value that was read from JSON is well-formed as well. -/
theorem sound_record : ∀ {json : Json}, json.Sound → (ofJson json).record.Sound
  | .null, _ => trivial
  | .bool true, _ => trivial
  | .bool false, _ => trivial
  | .str _, _ => trivial
  | .int n, h => by
    have hfinite := Number.isFinite_ofInt h.1 h.2
    rw [ofJson, record, numberToRecord_of_isFinite hfinite]
    exact hfinite
  | .float x, h => by
    rw [ofJson, record, numberToRecord_of_isFinite h]
    exact h
  | .arr elems, h => by
    rw [ofJson, record]
    exact sound_recordItems h
  | .obj fields, h => by
    rw [ofJson, record, Sound]
    refine ⟨?_, sound_recordFields h.2⟩
    rw [SortedFields, map_fst_recordFields, map_fst_ofJsonFields]
    exact h.1

/-- The record of sound elements is sound. -/
theorem sound_recordItems : ∀ {elems : List Json}, SoundElems elems →
    SoundElems (recordItems (ofJsonElems elems))
  | [], _ => trivial
  | _ :: _, h => ⟨sound_record h.1, sound_recordItems h.2⟩

/-- The record of sound fields is sound. -/
theorem sound_recordFields : ∀ {fields : List (String × Json)}, SoundFields fields →
    SoundFields (recordFields (ofJsonFields fields))
  | [], _ => trivial
  | (_, _) :: _, h => ⟨sound_record h.1, sound_recordFields h.2⟩

end

mutual

/-- A value that was read from JSON is what its stored form is read as. An integer has become the
nearest binary64 number, and is that number from then on. -/
theorem ofJson_record_ofJson : ∀ {json : Json}, json.Sound →
    ofJson (ofJson json).record = ofJson json
  | .null, _ => rfl
  | .bool true, _ => rfl
  | .bool false, _ => rfl
  | .str _, _ => rfl
  | .int n, h => by
    rw [ofJson, record, numberToRecord_of_isFinite (Number.isFinite_ofInt h.1 h.2), ofJson]
  | .float x, h => by
    rw [ofJson, record, numberToRecord_of_isFinite h, ofJson]
  | .arr elems, h => by
    rw [ofJson, record, ofJson, ofJsonElems_recordItems h]
  | .obj fields, h => by
    rw [ofJson, record, ofJson, ofJsonFields_recordFields h.2]

/-- The elements that are read back are those that were recorded. -/
theorem ofJsonElems_recordItems : ∀ {elems : List Json}, SoundElems elems →
    ofJsonElems (recordItems (ofJsonElems elems)) = ofJsonElems elems
  | [], _ => rfl
  | e :: es, h => by
    rw [ofJsonElems, recordItems, ofJsonElems, ofJson_record_ofJson h.1, ofJsonElems_recordItems h.2]

/-- The fields that are read back are those that were recorded. -/
theorem ofJsonFields_recordFields : ∀ {fields : List (String × Json)}, SoundFields fields →
    ofJsonFields (recordFields (ofJsonFields fields)) = ofJsonFields fields
  | [], _ => rfl
  | (k, v) :: fs, h => by
    rw [ofJsonFields, recordFields, ofJsonFields, ofJson_record_ofJson h.1, ofJsonFields_recordFields h.2]

end

end Value

end PlanRunner
