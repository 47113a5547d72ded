/-!
# PlanRunner — white space, trimming and lines

White space is the Unicode property of that name, so a zero-width space and a
byte-order mark are ordinary characters. Everything here works on lists of
characters; the `String` forms wrap them.

* `trimChars` — drops white space at both ends and nothing in between;
* `lineChars` — splits at line feeds and drops one carriage return before each.
-/

namespace PlanRunner.Text

/-- The characters with the Unicode property `White_Space`. -/
def isBlankChar (c : Char) : Bool :=
  let n := c.toNat
  (9 ≤ n && n ≤ 13) || n == 0x20 || n == 0x85 || n == 0xA0 || n == 0x1680
    || (0x2000 ≤ n && n ≤ 0x200A) || n == 0x2028 || n == 0x2029 || n == 0x202F
    || n == 0x205F || n == 0x3000

def trimStartChars (cs : List Char) : List Char :=
  cs.dropWhile isBlankChar

def trimEndChars (cs : List Char) : List Char :=
  (cs.reverse.dropWhile isBlankChar).reverse

def trimChars (cs : List Char) : List Char :=
  trimEndChars (trimStartChars cs)

def trim (s : String) : String :=
  String.ofList (trimChars s.toList)

def isBlank (s : String) : Bool :=
  s.toList.all isBlankChar

/-- The text after as many repetitions of a word as it starts with, at most `n`. -/
def dropRepeats (word : List Char) : Nat → List Char → List Char
  | 0, cs => cs
  | n + 1, cs =>
    if word.isPrefixOf cs then dropRepeats word n (cs.drop word.length) else cs

/-- A text without the repetitions of a word at its end. -/
def trimEnd (word : List Char) (s : String) : String :=
  String.ofList (dropRepeats word.reverse s.length s.toList.reverse).reverse

/-- The pieces between line feeds; there is one more piece than there are feeds. -/
def splitFeeds : List Char → List (List Char)
  | [] => [[]]
  | c :: cs =>
    if c = '\n' then [] :: splitFeeds cs
    else
      match splitFeeds cs with
      | [] => [[c]]
      | piece :: pieces => (c :: piece) :: pieces

/-- One carriage return at the end of a line is dropped. -/
def dropReturn (line : List Char) : List Char :=
  match line.reverse with
  | '\r' :: front => front.reverse
  | _ => line

/-- Every piece but the last was ended by a line feed and loses the carriage
return before it; an empty last piece is no line. -/
def linesOfPieces : List (List Char) → List (List Char)
  | [] => []
  | [last] => if last.isEmpty then [] else [last]
  | piece :: pieces => dropReturn piece :: linesOfPieces pieces

/-- The lines of a text. A line feed ends a line, and a final line without one
keeps its carriage return; no empty line is added after the last line feed. -/
def lineChars (cs : List Char) : List (List Char) :=
  linesOfPieces (splitFeeds cs)

def lines (s : String) : List String :=
  (lineChars s.toList).map String.ofList

def asciiLower (s : String) : String :=
  s.map Char.toLower

def asciiUpper (s : String) : String :=
  s.map Char.toUpper

/-- Equality up to the case of ASCII letters. -/
def eqIgnoreAsciiCase (s t : String) : Bool :=
  asciiLower s == asciiLower t

def joinLines (parts : List String) : String :=
  "\n".intercalate parts

end PlanRunner.Text
