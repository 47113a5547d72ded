/-!
# PlanRunner — how alike two words are

The Jaro measure: characters match when they are equal and not far apart, and matching
characters in another order count less. Words are alike when the measure is above
seven tenths.

* `matching` — the matching characters of two words;
* `isAlike`, `mostAlike` — words that may have been meant.
-/

namespace PlanRunner.Text

/-- Takes the first character equal to `c` between two positions that was not taken
before. -/
def takeMatch (c : Char) (low high : Nat) : Nat → List (Char × Bool) → Option (List (Char × Bool))
  | _, [] => none
  | i, (d, taken) :: rest =>
    if low ≤ i ∧ i < high ∧ c = d ∧ taken = false then some ((d, true) :: rest)
    else (takeMatch c low high (i + 1) rest).map fun rest => (d, taken) :: rest

/-- The characters of the first word that match, and those of the second one marked. -/
def matchAll (range : Nat) : Nat → List Char → List (Char × Bool) → List Char × List (Char × Bool)
  | _, [], marked => ([], marked)
  | i, c :: cs, marked =>
    match takeMatch c (i - range) (i + range + 1) 0 marked with
    | some marked =>
      let (found, marked) := matchAll range (i + 1) cs marked
      (c :: found, marked)
    | none => matchAll range (i + 1) cs marked

/-- The matching characters of two words, each in the order of its word. -/
def matching (a b : List Char) : List Char × List Char :=
  let (found, marked) :=
    matchAll (max a.length b.length / 2 - 1) 0 a (b.map fun c => (c, false))
  (found, (marked.filter Prod.snd).map Prod.fst)

/-- The measure as a fraction: three times it is the first number over the second. -/
def likeness (a b : String) : Nat × Nat :=
  let (xs, ys) := matching a.toList b.toList
  let m := xs.length
  let half := ((xs.zip ys).filter fun p => p.1 != p.2).length / 2
  if m = 0 then (0, 1)
  else
    (m * m * b.length + m * m * a.length + (m - half) * a.length * b.length,
      m * a.length * b.length)

def isAlike (a b : String) : Bool :=
  let (n, d) := likeness a b
  21 * d < 10 * n

/-- Puts a word behind those that are less alike. -/
def insertByLikeness (word candidate : String) : List String → List String
  | [] => [candidate]
  | other :: rest =>
    let (n, d) := likeness word candidate
    let (m, e) := likeness word other
    if n * e < m * d then candidate :: other :: rest
    else other :: insertByLikeness word candidate rest

/-- The words that are like a given one, the most alike last. -/
def alikeAmong (word : String) (candidates : List String) : List String :=
  (candidates.filter (isAlike word)).foldl (fun acc c => insertByLikeness word c acc) []

end PlanRunner.Text
