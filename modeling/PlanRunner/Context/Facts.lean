import PlanRunner.Value.Basic

/-!
# PlanRunner — facts

Named values that are told to a language model along with its task, in the order
of their names.
-/

namespace PlanRunner

/-- Named values, sorted by name. -/
structure Facts where
  entries : List (String × Value)
  deriving Inhabited

namespace Facts

def empty : Facts := ⟨[]⟩

/-- The facts of a list of fields; the last of each name counts. -/
def ofList (fields : List (String × Value)) : Facts := ⟨sortFields fields⟩

/-- Sets a fact; an older one of the same name is replaced. -/
def set (f : Facts) (key : String) (value : Value) : Facts := ⟨insertField key value f.entries⟩

def get? (f : Facts) (key : String) : Option Value := field? key f.entries

def size (f : Facts) : Nat := f.entries.length

def isEmpty (f : Facts) : Bool := f.entries.isEmpty

/-- Sets every fact of `other`, which wins over an older fact of the same name. -/
def overlay (f other : Facts) : Facts :=
  other.entries.foldl (fun acc (k, v) => acc.set k v) f

/-- Whether two sets of facts are equal, numbers compared as numbers. -/
def same (f g : Facts) : Bool := f.entries == g.entries

/-- One line a fact; facts with empty values are left out. -/
def lines (f : Facts) : List String :=
  (f.entries.filter fun e => !e.2.isEmpty).map fun (k, v) => s!"{k}: {v.text}"

@[simp] theorem get?_set_self (f : Facts) (key : String) (value : Value) :
    (f.set key value).get? key = some value := by
  simp [set, get?]

theorem get?_set_ne (f : Facts) {key other : String} (value : Value) (h : other ≠ key) :
    (f.set key value).get? other = f.get? other := by
  simp [set, get?, field?_insertField_ne _ _ h]

end Facts

end PlanRunner
