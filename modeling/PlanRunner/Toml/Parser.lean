import PlanRunner.Json.Parser
import PlanRunner.Toml.Table

/-!
# PlanRunner — reading TOML

A reader for TOML 1.0 over lists of characters. Why a text is refused is not
recorded. Dates and times are checked and become an object with one field.

* `quotedText?`, `literalText?` and their forms with several lines — text;
* `scalar?` — numbers, dates and times;
* `parseValue` — any value;
* `parse?` — a whole document as a tree.
-/

namespace PlanRunner.Toml

open PlanRunner.Number

/-! ## Characters -/

def isBlank (c : Char) : Bool := c == ' ' || c == '\t'

/-- A character that may stand in a comment or in text: no control character but the
tab. -/
def isPlain (c : Char) : Bool := c == '\t' || (32 ≤ c.toNat && c.toNat != 127)

def isBareChar (c : Char) : Bool :=
  c.isDigit || ('a' ≤ c && c ≤ 'z') || ('A' ≤ c && c ≤ 'Z') || c == '_' || c == '-'

def skipBlank (cs : List Char) : List Char := cs.dropWhile isBlank

def newline? : List Char → Option (List Char)
  | '\n' :: rest => some rest
  | '\r' :: '\n' :: rest => some rest
  | _ => none

/-- The text after blanks, a comment and the end of the line or of the document. -/
def lineEnd? (cs : List Char) : Option (List Char) :=
  let cs := skipBlank cs
  let cs :=
    match cs with
    | '#' :: rest => rest.dropWhile isPlain
    | _ => cs
  if cs.isEmpty then some [] else newline? cs

def skipLines : Nat → List Char → List Char
  | 0, cs => cs
  | fuel + 1, cs =>
    match skipBlank cs with
    | '#' :: rest => skipLines fuel (rest.dropWhile isPlain)
    | cs =>
      match newline? cs with
      | some rest => skipLines fuel rest
      | none => cs

/-- `skipLines` with as much fuel as there are characters. -/
def skipGaps (cs : List Char) : List Char := skipLines (cs.length + 1) cs

/-! ## Text -/

def hexValue? : Nat → List Char → Option Nat
  | n, [] => some n
  | n, c :: cs => (Json.hexValue? c).bind fun d => hexValue? (16 * n + d) cs

/-- The character with a code of some hexadecimal digits, and the text after them. -/
def codePoint? (digits : Nat) (cs : List Char) : Option (Char × List Char) :=
  if cs.length < digits then none
  else
    (hexValue? 0 (cs.take digits)).bind fun n =>
      if n < 0xD800 || (0xDFFF < n && n < 0x110000) then some (Char.ofNat n, cs.drop digits)
      else none

def escape? : List Char → Option (Char × List Char)
  | 'b' :: rest => some (Char.ofNat 8, rest)
  | 't' :: rest => some ('\t', rest)
  | 'n' :: rest => some ('\n', rest)
  | 'f' :: rest => some (Char.ofNat 12, rest)
  | 'r' :: rest => some ('\r', rest)
  | '"' :: rest => some ('"', rest)
  | '\\' :: rest => some ('\\', rest)
  | 'u' :: rest => codePoint? 4 rest
  | 'U' :: rest => codePoint? 8 rest
  | _ => none

/-- The rest of a quoted text of one line, `seen` in reverse. -/
def quotedText? : Nat → List Char → List Char → Option (String × List Char)
  | 0, _, _ => none
  | _ + 1, _, [] => none
  | fuel + 1, seen, c :: cs =>
    if c = '"' then some (String.ofList seen.reverse, cs)
    else if c = '\\' then
      match escape? cs with
      | some (e, rest) => quotedText? fuel (e :: seen) rest
      | none => none
    else if isPlain c then quotedText? fuel (c :: seen) cs
    else none

/-- The rest of a literal text of one line. -/
def literalText? (cs : List Char) : Option (String × List Char) :=
  let text := cs.takeWhile fun c => isPlain c && c != '\''
  match cs.drop text.length with
  | '\'' :: rest => some (String.ofList text, rest)
  | _ => none

/-- The text after the blanks and line breaks that follow a backslash at the end of a
line. -/
def continued? (cs : List Char) : Option (List Char) :=
  (newline? (skipBlank cs)).map fun rest =>
    rest.dropWhile fun c => isBlank c || c == '\n' || c == '\r'

/-- How a text of several lines ends when it has come to some quotes: up to two of
them belong to it, and the next three close it. -/
def closing? (quotes : Nat) : Option Nat :=
  if quotes < 3 then none else some (min (quotes - 3) 2)

/-- The rest of a text of several lines. `mark` is its quote; only quoted text has
escapes. -/
def longText? (mark : Char) (escapes : Bool) :
    Nat → List Char → List Char → Option (String × List Char)
  | 0, _, _ => none
  | _ + 1, _, [] => none
  | fuel + 1, seen, c :: cs =>
    if c = mark then
      let quotes := 1 + (cs.takeWhile (· == mark)).length
      match closing? quotes with
      | some own =>
        some (String.ofList (seen.reverse ++ List.replicate own mark), cs.drop (own + 2))
      | none => longText? mark escapes fuel (c :: seen) cs
    else if c = '\\' && escapes then
      match continued? cs with
      | some rest => longText? mark escapes fuel seen rest
      | none =>
        match escape? cs with
        | some (e, rest) => longText? mark escapes fuel (e :: seen) rest
        | none => none
    else
      match newline? (c :: cs) with
      | some rest => longText? mark escapes fuel ('\n' :: seen) rest
      | none => if isPlain c then longText? mark escapes fuel (c :: seen) cs else none

/-- A text of several lines after its opening quotes; a line break right after them
does not count. -/
def longStart (cs : List Char) : List Char := (newline? cs).getD cs

def text? : List Char → Option (String × List Char)
  | '"' :: '"' :: '"' :: rest => longText? '"' true (rest.length + 1) [] (longStart rest)
  | '"' :: rest => quotedText? (rest.length + 1) [] rest
  | '\'' :: '\'' :: '\'' :: rest => longText? '\'' false (rest.length + 1) [] (longStart rest)
  | '\'' :: rest => literalText? rest
  | _ => none

/-! ## Keys -/

/-- The part of a key between dots. -/
def keyPart? (cs : List Char) : Option (String × List Char) :=
  match cs with
  | '"' :: rest => quotedText? (rest.length + 1) [] rest
  | '\'' :: rest => literalText? rest
  | _ =>
    let bare := cs.takeWhile isBareChar
    if bare.isEmpty then none else some (String.ofList bare, cs.dropWhile isBareChar)

/-- The parts of a key, with blanks around each. -/
def keyParts? : Nat → List Char → Option (List String × List Char)
  | 0, _ => none
  | fuel + 1, cs =>
    match keyPart? (skipBlank cs) with
    | none => none
    | some (part, rest) =>
      match skipBlank rest with
      | '.' :: rest => (keyParts? fuel rest).map fun (parts, rest) => (part :: parts, rest)
      | rest => some ([part], rest)

/-- How deep a document may go: fewer parts in a key, and fewer values inside one
another. -/
def depthLimit : Nat := 80

def key? (cs : List Char) : Option ((List String × String) × List Char) :=
  match keyParts? (cs.length + 1) cs with
  | none => none
  | some (parts, rest) =>
    if depthLimit ≤ parts.length then none
    else parts.getLast?.map fun last => ((parts.dropLast, last), rest)

/-! ## Numbers -/

def sign (cs : List Char) : Bool × List Char :=
  match cs with
  | '-' :: rest => (true, rest)
  | '+' :: rest => (false, rest)
  | _ => (false, cs)

/-- Digits with single underscores between them. `started` tells whether a digit came
right before. -/
def digits? (isDigit : Char → Bool) : Bool → List Char → Option (List Char × List Char)
  | started, [] => if started then some ([], []) else none
  | started, c :: cs =>
    if isDigit c then (digits? isDigit true cs).map fun (ds, rest) => (c :: ds, rest)
    else if c = '_' && started then digits? isDigit false cs
    else if started then some ([], c :: cs)
    else none

def whole? : List Char → Option (List Char × List Char)
  | '0' :: rest => some (['0'], rest)
  | cs => digits? Char.isDigit false cs

/-- The fraction of a number with its point. -/
def fraction? : List Char → Option (List Char × List Char)
  | '.' :: rest => (digits? Char.isDigit false rest).map fun (ds, rest) => ('.' :: ds, rest)
  | _ => none

def exponent? : List Char → Option (List Char × List Char)
  | [] => none
  | c :: rest =>
    if c = 'e' || c = 'E' then
      let (negative, rest) := sign rest
      (digits? Char.isDigit false rest).map fun (ds, rest) =>
        ('e' :: (if negative then '-' :: ds else ds), rest)
    else none

/-- What comes after the whole part of a number with a point or an exponent. -/
def floatTail? (cs : List Char) : Option (List Char × List Char) :=
  match exponent? cs with
  | some tail => some tail
  | none =>
    match fraction? cs with
    | none => none
    | some (fraction, rest) =>
      match exponent? rest with
      | some (exponent, rest) => some (fraction ++ exponent, rest)
      | none => some (fraction, rest)

def word? (word : String) (cs : List Char) : Option (List Char) :=
  Json.word? word.toList cs

def float? (cs : List Char) : Option (Json × List Char) :=
  let (negative, unsigned) := sign cs
  match whole? unsigned with
  | none => none
  | some (whole, rest) =>
    match floatTail? rest with
    | none => none
    | some (tail, rest) =>
      match readUnsigned? negative (whole ++ tail) with
      | none => none
      | some x => if x.isFinite || negative then some (.float x, rest) else none

def specialFloat? (cs : List Char) : Option (Json × List Char) :=
  let (negative, unsigned) := sign cs
  let infinity : Float := 1.0 / 0.0
  match word? "inf" unsigned with
  | some rest => some (.float (if negative then -infinity else infinity), rest)
  | none => (word? "nan" unsigned).map fun rest => (.float (infinity - infinity), rest)

def isBaseDigit (base : Nat) (c : Char) : Bool :=
  match Json.hexValue? c with
  | some d => d < base
  | none => false

/-- An integer of 64 bits. -/
def int? (n : Int) (rest : List Char) : Option (Json × List Char) :=
  if -9223372036854775808 ≤ n ∧ n < 9223372036854775808 then some (.int n, rest) else none

/-- An integer in the base that its first characters name. -/
def basedInt? (base : Nat) (cs : List Char) : Option (Json × List Char) :=
  (digits? (isBaseDigit base) false cs).bind fun (ds, rest) =>
    int? (ds.foldl (fun n c => n * base + (Json.hexValue? c).getD 0) 0 : Nat) rest

def integer? (cs : List Char) : Option (Json × List Char) :=
  match cs with
  | '0' :: 'x' :: rest => basedInt? 16 rest
  | '0' :: 'o' :: rest => basedInt? 8 rest
  | '0' :: 'b' :: rest => basedInt? 2 rest
  | _ =>
    let (negative, unsigned) := sign cs
    (whole? unsigned).bind fun (ds, rest) =>
      let n : Int := digitsValue ds
      int? (if negative then -n else n) rest

/-! ## Dates and times -/

/-- A number of exactly some digits between two bounds. -/
def fixedDigits? (count low high : Nat) (cs : List Char) : Option (Nat × List Char) :=
  let ds := cs.take count
  if ds.length = count && ds.all Char.isDigit then
    let n := digitsValue ds
    if low ≤ n && n ≤ high then some (n, cs.drop count) else none
  else none

def char? (c : Char) : List Char → Option (List Char)
  | d :: rest => if d = c then some rest else none
  | [] => none

def daysOf (year month : Nat) : Nat :=
  let leap := year % 4 == 0 && (year % 100 != 0 || year % 400 == 0)
  if month = 2 then (if leap then 29 else 28)
  else if [4, 6, 9, 11].contains month then 30
  else 31

def date? (cs : List Char) : Option (List Char) := do
  let (year, cs) ← fixedDigits? 4 0 9999 cs
  let (month, cs) ← fixedDigits? 2 1 12 (← char? '-' cs)
  let (_, cs) ← fixedDigits? 2 1 (daysOf year month) (← char? '-' cs)
  pure cs

/-- The text after the fraction of a second, if there is one. -/
def secondFraction (cs : List Char) : List Char :=
  match cs with
  | '.' :: c :: rest => if c.isDigit then rest.dropWhile Char.isDigit else cs
  | _ => cs

def time? (cs : List Char) : Option (List Char) := do
  let (_, cs) ← fixedDigits? 2 0 23 cs
  let (_, cs) ← fixedDigits? 2 0 59 (← char? ':' cs)
  let (_, cs) ← fixedDigits? 2 0 60 (← char? ':' cs)
  pure (secondFraction cs)

def zone (cs : List Char) : List Char :=
  let offset (rest : List Char) : Option (List Char) := do
    let (_, rest) ← fixedDigits? 2 0 23 rest
    let (_, rest) ← fixedDigits? 2 0 59 (← char? ':' rest)
    pure rest
  match cs with
  | 'Z' :: rest => rest
  | 'z' :: rest => rest
  | '+' :: rest => (offset rest).getD cs
  | '-' :: rest => (offset rest).getD cs
  | _ => cs

def dateTime? (cs : List Char) : Option (List Char) :=
  match date? cs with
  | none => time? cs
  | some rest =>
    match rest with
    | c :: tail =>
      if c = 'T' || c = 't' || c = ' ' then
        match time? tail with
        | some tail => some (zone tail)
        | none => some rest
      else some rest
    | [] => some rest

/-- The name of the only field of the object that stands for a date or a time. -/
def dateTimeKey : String := "$__toml_private_datetime"

def scalar? (cs : List Char) : Option (Json × List Char) :=
  match dateTime? cs with
  | some rest =>
    let text := String.ofList (cs.take (cs.length - rest.length))
    some (.obj [(dateTimeKey, .str text)], rest)
  | none =>
    match float? cs with
    | some result => some result
    | none =>
      match specialFloat? cs with
      | some result => some result
      | none => integer? cs

/-! ## Values -/

/-- The object that keys with values describe. -/
def inlineTable? (entries : List ((List String × String) × Json)) : Option Json :=
  (entries.foldlM (fun t ((path, key), json) => Table.put? path key json t) []).map Table.toJson

mutual

/-- One value and the text after it. `depth` containers may still be opened; fuel
covers two calls for every character. -/
def parseValue : Nat → Nat → List Char → Option (Json × List Char)
  | 0, _, _ => none
  | fuel + 1, depth, cs =>
    match cs with
    | '"' :: _ => (text? cs).map fun (s, rest) => (.str s, rest)
    | '\'' :: _ => (text? cs).map fun (s, rest) => (.str s, rest)
    | '[' :: rest =>
      match depth with
      | 0 => none
      | depth + 1 =>
        (parseItems fuel depth (skipGaps rest)).map fun (items, rest) => (.arr items, rest)
    | '{' :: rest =>
      match depth with
      | 0 => none
      | depth + 1 =>
        match skipBlank rest with
        | '}' :: rest => some (.obj [], rest)
        | rest =>
          (parseEntries fuel depth rest).bind fun (entries, rest) =>
            (inlineTable? entries).map fun json => (json, rest)
    | 't' :: _ => (word? "true" cs).map fun rest => (.bool true, rest)
    | 'f' :: _ => (word? "false" cs).map fun rest => (.bool false, rest)
    | _ => scalar? cs

/-- The rest of an array at its next item or its end. -/
def parseItems : Nat → Nat → List Char → Option (List Json × List Char)
  | 0, _, _ => none
  | fuel + 1, depth, cs =>
    match cs with
    | ']' :: rest => some ([], rest)
    | _ =>
      match parseValue fuel depth cs with
      | none => none
      | some (item, rest) =>
        match skipGaps rest with
        | ']' :: rest => some ([item], rest)
        | ',' :: rest =>
          (parseItems fuel depth (skipGaps rest)).map fun (items, rest) => (item :: items, rest)
        | _ => none

/-- The rest of an inline table at its next key. -/
def parseEntries : Nat → Nat → List Char →
    Option (List ((List String × String) × Json) × List Char)
  | 0, _, _ => none
  | fuel + 1, depth, cs =>
    match key? cs with
    | some (key, '=' :: rest) =>
      match parseValue fuel depth (skipBlank rest) with
      | none => none
      | some (json, rest) =>
        match skipBlank rest with
        | '}' :: rest => some ([(key, json)], rest)
        | ',' :: rest =>
          (parseEntries fuel depth rest).map fun (entries, rest) => ((key, json) :: entries, rest)
        | _ => none
    | _ => none

end

/-! ## Documents -/

/-- A document as far as it was read: its table and the latest header. -/
structure Progress where
  root : Table
  header : List String

/-- A header in brackets, after which `closed?` finds the end of its brackets. -/
def header? (closed? : List Char → Option (List Char)) (cs : List Char) :
    Option ((List String × String) × List Char) :=
  (key? cs).bind fun (key, rest) =>
    ((closed? rest).bind lineEnd?).map fun rest => (key, rest)

def doubleClose? : List Char → Option (List Char)
  | ']' :: ']' :: rest => some rest
  | _ => none

/-- One line of a document, which may have values of several lines. -/
def line? (p : Progress) (cs : List Char) : Option (Progress × List Char) :=
  match cs with
  | '[' :: '[' :: rest =>
    (header? doubleClose? rest).bind fun ((path, key), rest) =>
      (p.root.append? path key).map fun root => (⟨root, path ++ [key]⟩, rest)
  | '[' :: rest =>
    (header? (char? ']') rest).bind fun ((path, key), rest) =>
      (p.root.define? path key).map fun root => (⟨root, path ++ [key]⟩, rest)
  | _ =>
    match lineEnd? cs with
    | some rest => some (p, rest)
    | none =>
      match key? cs with
      | some ((path, key), '=' :: rest) =>
        (parseValue (2 * rest.length + 2) (depthLimit - 1) (skipBlank rest)).bind
          fun (json, rest) =>
            (lineEnd? rest).bind fun rest =>
              (p.root.assign? p.header path key json).map fun root => ({ p with root := root }, rest)
      | _ => none

def lines? : Nat → Progress → List Char → Option Table
  | 0, _, _ => none
  | fuel + 1, p, cs =>
    match skipBlank cs with
    | [] => some p.root
    | cs =>
      match line? p cs with
      | some (p, rest) => lines? fuel p rest
      | none => none

/-- Reads a whole document. A byte-order mark in front of it is skipped. -/
def parse? (cs : List Char) : Option Json :=
  let cs :=
    match cs with
    | c :: rest => if c.toNat = 0xFEFF then rest else cs
    | [] => []
  (lines? (cs.length + 1) ⟨[], []⟩ cs).map Table.toJson

def ofText? (s : String) : Option Json := parse? s.toList

end PlanRunner.Toml
