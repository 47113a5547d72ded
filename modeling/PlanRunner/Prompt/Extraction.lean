import PlanRunner.Json.Parser
import PlanRunner.Text.Blank

/-!
# PlanRunner — JSON in the reply of a language model

A reply may be JSON, may hold JSON between code fences, or may mention JSON in
running text. The payload is looked for in that order:

* the whole text, if it is an object or an array;
* the first pair of fences around any JSON value;
* the first bracket from which a balanced span is an accepted value.
-/

namespace PlanRunner.Extraction

def fence : List Char := "```".toList

/-- The text before and after the first fence. -/
def splitFence : List Char → Option (List Char × List Char)
  | [] => none
  | c :: cs =>
    if fence.isPrefixOf (c :: cs) then some ([], (c :: cs).drop fence.length)
    else (splitFence cs).map fun (before, after) => (c :: before, after)

/-- The text after an opening fence and its info line. Without any line end the
text begins right after the fence. -/
def afterInfo (cs : List Char) : List Char :=
  match cs.dropWhile (· != '\n') with
  | [] => cs
  | _ :: rest => rest

/-- The first fenced text that is JSON. Each round passes at least one fence, so
the length of the text is enough fuel. -/
def fenced? : Nat → List Char → Option Json
  | 0, _ => none
  | fuel + 1, cs =>
    match splitFence cs with
    | none => none
    | some (_, after) =>
      match splitFence (afterInfo after) with
      | none => none
      | some (body, rest) =>
        match Json.parse? (Text.trimChars body) with
        | some json => some json
        | none => fenced? fuel rest

/-- Where a scan for the closing bracket stands. -/
structure Scan where
  depth : Nat
  inString : Bool
  escaped : Bool

/-- One character of the scan for the bracket that closes the first one. -/
def Scan.step (s : Scan) (c : Char) : Scan :=
  if s.inString then
    if s.escaped then { s with escaped := false }
    else if c = '\\' then { s with escaped := true }
    else if c = '"' then { s with inString := false }
    else s
  else if c = '"' then { s with inString := true }
  else if c = '{' || c = '[' then { s with depth := s.depth + 1 }
  else if c = '}' || c = ']' then { s with depth := s.depth - 1 }
  else s

/-- The text up to and including the bracket that closes the first one. Brackets
inside JSON strings do not count. -/
def closeSpan (s : Scan) : List Char → Option (List Char)
  | [] => none
  | c :: cs =>
    let next := s.step c
    if !s.inString && (c = '}' || c = ']') && next.depth = 0 then some [c]
    else (closeSpan next cs).map (c :: ·)

def balanced? (cs : List Char) : Option (List Char) :=
  closeSpan ⟨0, false, false⟩ cs

def opensValue (c : Char) : Bool :=
  c == '{' || c == '['

/-- The value of the first balanced span that is JSON. -/
def spanned? : List Char → Option Json
  | [] => none
  | c :: cs =>
    let here :=
      if opensValue c then (balanced? (c :: cs)).bind fun span => Json.parse? span else none
    match here with
    | some json => some json
    | none => spanned? cs

def whole? (cs : List Char) : Option Json :=
  match Json.parse? cs with
  | some json => if json.isContainer then some json else none
  | none => none

/-- The payload of a reply. -/
def payloadChars? (cs : List Char) : Option Json :=
  let cs := Text.trimChars cs
  match whole? cs with
  | some json => some json
  | none =>
    match fenced? (cs.length + 1) cs with
    | some json => some json
    | none => spanned? cs

def payload? (s : String) : Option Json :=
  payloadChars? s.toList

end PlanRunner.Extraction
