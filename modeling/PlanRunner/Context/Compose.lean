import PlanRunner.Context.Facts

/-!
# PlanRunner — facts in front of a prompt

A prompt is a block of lasting facts, a block of facts of the request, and the
body of the task, with a blank line between the parts that are not empty. The body
is never shortened. When the prompt is too long, the lasting facts give way first,
then the facts of the request; a block keeps its first lines, and one that would be
reduced to its heading is left out.

* `estimateTokens` — four bytes of UTF-8 are one token;
* `compose` — the prompt within a number of tokens, as far as the body allows.
-/

namespace PlanRunner.Context

/-- The number of tokens of a text, estimated from its length in bytes. -/
def estimateTokens (s : String) : Nat :=
  (s.utf8ByteSize + 3) / 4

def lastingHeading : String := "## Project context"

def requestHeading : String := "## Request context"

def separator : String := "\n\n"

/-- The facts under a heading, or nothing when there are none to show. -/
def block (heading : String) (facts : Facts) : String :=
  let lines := facts.lines
  if lines.isEmpty then "" else s!"{heading}\n{Text.joinLines lines}"

/-- The parts that are not blank, with a blank line between them. -/
def joinParts (parts : List String) : String :=
  separator.intercalate (parts.filter fun p => !Text.isBlank p)

/-- Whether some lines of a block and the separator after it stay within a number
of tokens. -/
def fits (budget : Nat) (lines : List String) : Bool :=
  estimateTokens (Text.joinLines lines) + estimateTokens separator ≤ budget

/-- The longest run of first lines that fits; `kept` are the lines taken so far. -/
def fitLines (budget : Nat) (kept : List String) : List String → List String
  | [] => kept
  | line :: lines =>
    if fits budget (kept ++ [line]) then fitLines budget (kept ++ [line]) lines else kept

/-- A block shortened to a number of tokens. -/
def fitBlock (budget : Nat) (b : String) : String :=
  let kept := fitLines budget [] (Text.lines b)
  if kept.length ≤ 1 then "" else Text.joinLines kept

/-- The prompt of two blocks and a body within a number of tokens. -/
def composeBlocks (lasting request body : String) (contextLength : Nat) : String :=
  let total (l r : String) : Nat := estimateTokens (joinParts [l, r, body])
  let lasting :=
    if contextLength < total lasting request then
      fitBlock (contextLength - total "" request) lasting
    else lasting
  let request :=
    if contextLength < total lasting request then
      fitBlock (contextLength - total lasting "") request
    else request
  joinParts [lasting, request, body]

def compose (lasting request : Facts) (body : String) (contextLength : Nat) : String :=
  composeBlocks (block lastingHeading lasting) (block requestHeading request) body contextLength

end PlanRunner.Context
