import PlanRunner.Text.Case.Table

/-!
# PlanRunner — upper and lower case of texts

Case conversion of whole texts by the Unicode tables: a character may become
several, and a capital sigma at the end of a word becomes its final form.
-/

namespace PlanRunner.Text.Case

/-- The code point a run moves a code point to, if the run contains it. -/
def Run.apply? (r : Run) (n : Nat) : Option Nat :=
  if r.first ≤ n ∧ n ≤ r.last ∧ (n - r.first) % r.step = 0 then
    some ((n : Int) + r.distance).toNat
  else none

/-- The characters a character becomes under runs and sequences. -/
def convert (runs : List Run) (sequences : List (Nat × List Nat)) (c : Char) : List Char :=
  match sequences.lookup c.toNat with
  | some ns => ns.map Char.ofNat
  | none =>
    match runs.findSome? fun r => r.apply? c.toNat with
    | some n => [Char.ofNat n]
    | none => [c]

/-- Whether the first character that does not merely attach to a word has case. -/
def meetsCased (cs : List Char) : Bool :=
  match cs.dropWhile caseIgnorable.contains with
  | c :: _ => cased.contains c
  | [] => false

/-- The lower case of a text; `before` holds the characters already passed, last first. -/
def lowerFrom : List Char → List Char → List Char
  | _, [] => []
  | before, c :: cs =>
    let lowered :=
      if c = 'Σ' then
        if meetsCased before && !meetsCased cs then ['ς'] else ['σ']
      else convert lowerRuns lowerSequences c
    lowered ++ lowerFrom (c :: before) cs

end Case

def upper (s : String) : String :=
  String.ofList (s.toList.flatMap (Case.convert Case.upperRuns Case.upperSequences))

def lower (s : String) : String :=
  String.ofList (Case.lowerFrom [] s.toList)

end PlanRunner.Text
