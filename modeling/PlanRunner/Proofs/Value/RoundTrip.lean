import PlanRunner.Proofs.Json.Sound

/-!
# PlanRunner — values that go through JSON

A remote layer is sent the JSON form of its arguments, and reads them from it. What it reads is what
a layer of the same process is given, but for two things that JSON has no way to say: the sign of a
zero that is written as an integer, and numbers that are not finite.

* `Value.mapNumbers` — a value with something in place of each of its numbers;
* `Value.ofJson_numberToJson` — one number, whichever way it is written;
* `Value.settled`, `Value.ofJson_toJson` — any value.
-/

namespace PlanRunner

namespace Value

open Json (Sound SoundElems SoundFields)
open Number (toInt?)

-- ---------------------------------------------------------------------------
-- Numbers in place of numbers
-- ---------------------------------------------------------------------------

mutual

/-- A value with something in place of each of its numbers, at any depth. -/
def mapNumbers (f : Float → Value) : Value → Value
  | .str s => .str s
  | .num x => f x
  | .list items => .list (mapNumbersItems f items)
  | .map fields => .map (mapNumbersFields f fields)

def mapNumbersItems (f : Float → Value) : List Value → List Value
  | [] => []
  | v :: vs => v.mapNumbers f :: mapNumbersItems f vs

def mapNumbersFields (f : Float → Value) : List (String × Value) → List (String × Value)
  | [] => []
  | (k, v) :: fs => (k, v.mapNumbers f) :: mapNumbersFields f fs

end

/-- A number; zero without its sign. -/
def plainZero (x : Float) : Float :=
  if x = -0.0 then 0.0 else x

/-- What is left of a number that goes through JSON. -/
def settledNumber (x : Float) : Value :=
  if x.isFinite then .num (plainZero x) else .str ""

/-- A value with plain zeros, and with the empty text in place of what is not finite. -/
def settled : Value → Value := mapNumbers settledNumber

/-- A value with plain zeros. -/
def withPlainZeros : Value → Value := mapNumbers fun x => .num (plainZero x)

-- ---------------------------------------------------------------------------
-- One number
-- ---------------------------------------------------------------------------

/-- Only negative zero is changed. -/
theorem plainZero_of_ne {x : Float} (h : x ≠ -0.0) : plainZero x = x := if_neg h

theorem toInt?_negativeZero : toInt? (-0.0) = some 0 := by decide +kernel

/-- An integer of 64 bits that a number is equal to becomes that number again. -/
theorem ofInt_of_toInt? {x : Float} {n : Int} (h : toInt? x = some n) (hlow : -2 ^ 63 ≤ n)
    (hhigh : n < 2 ^ 64) : Float.ofInt n = plainZero x := by
  -- zero has two floats, every other integer one
  by_cases hzero : n = 0
  · have hplain : Float.ofInt 0 = 0.0 := by decide +kernel
    have hnegative : plainZero (-0.0) = 0.0 := by decide +kernel
    have hpositive : plainZero 0.0 = 0.0 := by decide +kernel
    subst hzero
    rcases Number.eq_zero_of_toInt? h with rfl | rfl
    · rw [hplain, hpositive]
    · rw [hplain, hnegative]
  · have hne : x ≠ -0.0 := by
      rintro rfl
      rw [toInt?_negativeZero, Option.some_inj] at h
      exact hzero h.symm
    rw [plainZero_of_ne hne]
    exact Number.eq_of_toInt? (Number.toInt?_ofInt_of_toInt? hlow hhigh h) h hzero

/-- A whole number is an integral one of at most fifteen digits. -/
theorem wholeNumber?_eq_some {x : Float} {n : Int} (h : wholeNumber? x = some n) :
    toInt? x = some n ∧ n.natAbs < 10 ^ 15 := by
  unfold wholeNumber? at h
  cases hx : toInt? x with
  | none =>
    rw [hx] at h
    exact absurd h (by simp)
  | some k =>
    rw [hx] at h
    by_cases hlt : k.natAbs < Nat.pow 10 15
    · have hk : some k = some n := (if_pos hlt).symm.trans h
      obtain rfl := Option.some.inj hk
      exact ⟨rfl, hlt⟩
    · exact absurd ((if_neg hlt).symm.trans h) (by simp)

/-- A whole number is written as an integer. -/
theorem numberToJson_of_whole {x : Float} {n : Int} (h : wholeNumber? x = some n) :
    numberToJson x = .int n := by
  unfold numberToJson
  rw [h]

/-- A number that is not written as an integer is written as it is inside a record. -/
theorem numberToJson_of_none {x : Float} (h : wholeNumber? x = none) :
    numberToJson x = numberToRecord x := by
  unfold numberToJson
  rw [h]
  rfl

/-- A finite number settles at itself, or at zero. -/
theorem settledNumber_of_isFinite {x : Float} (h : x.isFinite = true) :
    settledNumber x = .num (plainZero x) := if_pos h

/-- A number is read again as it was, whether it is written as an integer or not. -/
theorem ofJson_numberToJson (x : Float) : ofJson (numberToJson x) = settledNumber x := by
  cases hwhole : wholeNumber? x with
  | some n =>
    -- integers below `10 ^ 15` have 64 bits
    obtain ⟨hvalue, hsize⟩ := wholeNumber?_eq_some hwhole
    have hbits : n.natAbs < 1000000000000000 := hsize
    rw [numberToJson_of_whole hwhole, settledNumber_of_isFinite (Number.isFinite_of_toInt? hvalue),
      ← ofInt_of_toInt? hvalue (by omega) (by omega), ofJson]
  | none =>
    have hne : x ≠ -0.0 := by
      rintro rfl
      have hzero : wholeNumber? (-0.0) = some 0 := by decide +kernel
      exact absurd (hzero.symm.trans hwhole) (by simp)
    rw [numberToJson_of_none hwhole]
    by_cases hfinite : x.isFinite = true
    · rw [numberToRecord_of_isFinite hfinite, settledNumber_of_isFinite hfinite,
        plainZero_of_ne hne, ofJson]
    · have hnull : numberToRecord x = .null := if_neg hfinite
      have hempty : settledNumber x = .str "" := if_neg hfinite
      rw [hnull, hempty, ofJson]

-- ---------------------------------------------------------------------------
-- Any value
-- ---------------------------------------------------------------------------

mutual

/-- A value that is written and read again settles its numbers. -/
theorem ofJson_toJson : ∀ v : Value, ofJson v.toJson = v.settled
  | .str _ => rfl
  | .num x => ofJson_numberToJson x
  | .list items => congrArg Value.list (ofJsonElems_toJsonItems items)
  | .map fields => congrArg Value.map (ofJsonFields_toJsonFields fields)

/-- The items of a list that is written and read again settle theirs. -/
theorem ofJsonElems_toJsonItems : ∀ vs : List Value,
    ofJsonElems (toJsonItems vs) = mapNumbersItems settledNumber vs
  | [] => rfl
  | v :: vs => by
    rw [toJsonItems, ofJsonElems, mapNumbersItems, ofJson_toJson v, ofJsonElems_toJsonItems vs]
    rfl

/-- The fields of a map that is written and read again settle theirs. -/
theorem ofJsonFields_toJsonFields : ∀ fs : List (String × Value),
    ofJsonFields (toJsonFields fs) = mapNumbersFields settledNumber fs
  | [] => rfl
  | (k, v) :: fs => by
    rw [toJsonFields, ofJsonFields, mapNumbersFields, ofJson_toJson v, ofJsonFields_toJsonFields fs]
    rfl

end

mutual

/-- All numbers are finite in a value that was read from JSON. -/
theorem settled_ofJson : ∀ {json : Json}, json.Sound →
    (ofJson json).settled = (ofJson json).withPlainZeros
  | .null, _ => rfl
  | .bool true, _ => rfl
  | .bool false, _ => rfl
  | .str _, _ => rfl
  | .int _, h => settledNumber_of_isFinite (Number.isFinite_ofInt h.1 h.2)
  | .float _, h => settledNumber_of_isFinite h
  | .arr _, h => congrArg Value.list (settled_ofJsonElems h)
  | .obj _, h => congrArg Value.map (settled_ofJsonFields h.2)

/-- In sound elements there are finite numbers only. -/
theorem settled_ofJsonElems : ∀ {elems : List Json}, SoundElems elems →
    mapNumbersItems settledNumber (ofJsonElems elems) =
      mapNumbersItems (fun x => .num (plainZero x)) (ofJsonElems elems)
  | [], _ => rfl
  | e :: es, h => by
    have hfirst : (ofJson e).mapNumbers settledNumber = (ofJson e).mapNumbers _ := settled_ofJson h.1
    rw [ofJsonElems, mapNumbersItems, mapNumbersItems, hfirst, settled_ofJsonElems h.2]

/-- In sound fields there are finite numbers only. -/
theorem settled_ofJsonFields : ∀ {fields : List (String × Json)}, SoundFields fields →
    mapNumbersFields settledNumber (ofJsonFields fields) =
      mapNumbersFields (fun x => .num (plainZero x)) (ofJsonFields fields)
  | [], _ => rfl
  | (k, v) :: fs, h => by
    have hfirst : (ofJson v).mapNumbers settledNumber = (ofJson v).mapNumbers _ := settled_ofJson h.1
    rw [ofJsonFields, mapNumbersFields, mapNumbersFields, hfirst, settled_ofJsonFields h.2]

end

/-- **What goes through JSON is the same but for the sign of zeros and for numbers that are not finite;
and what was read from JSON is the same but for the sign of zeros.** -/
theorem json_round_trip :
    (∀ v : Value, ofJson v.toJson = v.settled) ∧
      ∀ json : Json, json.Sound → ofJson (ofJson json).toJson = (ofJson json).withPlainZeros := by
  refine ⟨ofJson_toJson, fun json hsound => ?_⟩
  rw [ofJson_toJson, settled_ofJson hsound]

/-- A negative zero and an integer that has been rounded; and a number that is not finite. -/
theorem json_round_trip_nested :
    let json := Json.obj [("a", .arr [.float (-0.0), .int 9007199254740993])]
    json.Sound ∧
      ofJson (ofJson json).toJson = .map [("a", .list [.num 0.0, .num 9007199254740992.0])] ∧
      ofJson (Value.list [.num (1.0 / 0.0)]).toJson = .list [.str ""] := by
  intro json
  have hsound : json.Sound := by decide +kernel
  have hzero : plainZero (-0.0) = 0.0 := by decide +kernel
  have hlarge : plainZero (Float.ofInt 9007199254740993) = 9007199254740992.0 := by decide +kernel
  have hinfinite : (1.0 / 0.0 : Float).isFinite = false := by decide +kernel
  refine ⟨hsound, ?_, ?_⟩
  · rw [json_round_trip.2 json hsound]
    show Value.map [("a", .list [.num (plainZero (-0.0)),
      .num (plainZero (Float.ofInt 9007199254740993))])] = _
    rw [hzero, hlarge]
  · rw [json_round_trip.1]
    show Value.list [if (1.0 / 0.0 : Float).isFinite then .num (plainZero (1.0 / 0.0)) else .str ""] = _
    rw [hinfinite, if_neg Bool.false_ne_true]

end Value

end PlanRunner
