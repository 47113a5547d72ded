import PlanRunner.Text.Blank

/-!
# PlanRunner — addresses of servers

An address is brought into its normal form before a request is sent there: a host in
lower case, no socket number that goes without saying, no steps up and down in the path, and
every character that an address may not hold written as its bytes.

* `Address.ofText` — the address in a text;
* `normalPath` — the normal form of a path.
-/

namespace PlanRunner.Http

/-- What a text says as an address. -/
inductive Address where
  /-- No address at all. -/
  | unusable
  /-- The address of something that takes no requests. -/
  | foreign (shown : String)
  | server (shown : String)
  deriving DecidableEq, Repr

namespace Address

/-! ## Characters written as bytes -/

def hexDigit (n : Nat) : Char :=
  if n < 10 then Char.ofNat (48 + n) else Char.ofNat (55 + n)

def escapeByte (b : UInt8) : List Char :=
  ['%', hexDigit (b.toNat / 16), hexDigit (b.toNat % 16)]

/-- A text in which control characters, everything beyond ASCII and some marks are
written as bytes. -/
def escape (marks cs : List Char) : List Char :=
  cs.flatMap fun c =>
    if c.toNat < 32 || 127 ≤ c.toNat || marks.contains c then
      (String.singleton c).toUTF8.toList.flatMap escapeByte
    else [c]

def fragmentMarks : List Char := [' ', '"', '<', '>', '\x60']

def queryMarks : List Char := [' ', '"', '#', '<', '>', '\x27']

def pathMarks : List Char := fragmentMarks ++ ['#', '?', '{', '}']

def hexValue? (c : Char) : Option Nat :=
  if '0' ≤ c ∧ c ≤ '9' then some (c.toNat - 48)
  else if 'a' ≤ c ∧ c ≤ 'f' then some (c.toNat - 87)
  else if 'A' ≤ c ∧ c ≤ 'F' then some (c.toNat - 55)
  else none

/-- The characters that ASCII characters written as bytes stand for. -/
def unescape : List Char → List Char
  | '%' :: a :: b :: rest =>
    match hexValue? a, hexValue? b with
    | some high, some low => Char.ofNat (16 * high + low) :: unescape rest
    | _, _ => '%' :: unescape (a :: b :: rest)
  | c :: rest => c :: unescape rest
  | [] => []

/-! ## Paths -/

def isSlash (c : Char) : Bool := c == '/' || c == '\\'

def pathParts : List Char → List (List Char)
  | [] => [[]]
  | c :: rest =>
    if isSlash c then [] :: pathParts rest
    else
      match pathParts rest with
      | part :: parts => (c :: part) :: parts
      | [] => [[c]]

/-- A part with its dots written out. -/
def dots (part : List Char) : List Char :=
  let lower := (Text.asciiLower (String.ofList part)).toList
  match lower with
  | ['%', '2', 'e'] => ['.']
  | ['%', '2', 'e', '%', '2', 'e'] => ['.', '.']
  | ['.', '%', '2', 'e'] => ['.', '.']
  | ['%', '2', 'e', '.'] => ['.', '.']
  | _ => part

/-- The parts that are left when all steps up and down are made. -/
def settleParts (done : List (List Char)) : List (List Char) → List (List Char)
  | [] => done.reverse
  | part :: rest =>
    let here := if rest.isEmpty then [[]] else []
    if dots part = ['.'] then settleParts (here ++ done) rest
    else if dots part = ['.', '.'] then settleParts (here ++ done.drop 1) rest
    else settleParts (part :: done) rest

def normalPath (path : List Char) : List Char :=
  let path :=
    match path with
    | c :: rest => if isSlash c then rest else c :: rest
    | [] => []
  (settleParts [] (pathParts path)).flatMap fun part => '/' :: escape pathMarks part

/-! ## Hosts -/

def numeral? (base : Nat) (digits : List Char) : Option Nat :=
  digits.foldlM (fun n c =>
    match hexValue? c with
    | some d => if d < base then some (base * n + d) else none
    | none => none) 0

/-- The value of one part of a numeric host. -/
def hostNumber? : List Char → Option Nat
  | '0' :: 'x' :: digits => numeral? 16 digits
  | '0' :: digit :: digits => numeral? 8 (digit :: digits)
  | digits => if digits.isEmpty then none else numeral? 10 digits

/-- The parts of a host between points; a last empty part does not count. -/
def hostParts (host : List Char) : List String :=
  let parts := (String.ofList host).splitOn "."
  if parts.length > 1 && parts.getLast? == some "" then parts.dropLast else parts

/-- Whether a host is meant as a number. -/
def isNumericHost (host : List Char) : Bool :=
  match (hostParts host).getLast? with
  | some last =>
    let cs := last.toList
    !cs.isEmpty && (cs.all Char.isDigit || (cs.take 2 == ['0', 'x'] && (hostNumber? cs).isSome))
  | none => false

/-- The number of a numeric host. Its last part fills all bytes that are left. -/
def numericHost? (numbers : List Nat) : Option Nat :=
  match numbers.getLast? with
  | none => none
  | some last =>
    let front := numbers.dropLast
    if 4 < numbers.length || front.any (fun n => 255 < n) then none
    else if Nat.pow 256 (4 - front.length) ≤ last then none
    else
      let high := front.foldl (fun n d => 256 * n + d) 0
      some (high * Nat.pow 256 (4 - front.length) + last)

def shownNumber (n : Nat) : String :=
  s!"{n / 16777216}.{n / 65536 % 256}.{n / 256 % 256}.{n % 256}"

/-- Whether a name of a host may not hold a character. -/
def isForbidden (c : Char) : Bool :=
  c.toNat ≤ 32 || 127 ≤ c.toNat
    || ['#', '/', ':', '<', '>', '?', '@', '[', '\\', ']', '^', '|', '%'].contains c

/-- The normal form of a host. Names are in ASCII. -/
def normalHost? (host : List Char) : Option String :=
  match host with
  | '[' :: rest =>
    let inner := rest.takeWhile (· != ']')
    if rest.dropWhile (· != ']') = [']'] && inner.contains ':'
        && inner.all (fun c => c == ':' || c == '.' || (hexValue? c).isSome) then
      some (Text.asciiLower (String.ofList host))
    else none
  | _ =>
    let name := (Text.asciiLower (String.ofList (unescape host))).toList
    if name.isEmpty || name.any isForbidden then none
    else if isNumericHost name then
      ((hostParts name).mapM fun part => hostNumber? part.toList).bind fun numbers =>
        (numericHost? numbers).map shownNumber
    else some (String.ofList name)

/-- The normal form of a host with the number of its socket. -/
def normalPlace? (standardSocket : Nat) (place : List Char) : Option String :=
  let name :=
    match place with
    | '[' :: _ => place.takeWhile (· != ']') ++ (place.dropWhile (· != ']')).take 1
    | _ => place.takeWhile (· != ':')
  match normalHost? name, place.drop name.length with
  | none, _ => none
  | some host, [] => some host
  | some host, ':' :: digits =>
    if digits.isEmpty then some host
    else if !digits.all Char.isDigit then none
    else
      match numeral? 10 digits with
      | none => none
      | some socket =>
        if 65535 < socket then none
        else if socket = standardSocket then some host
        else some s!"{host}:{socket}"
  | some _, _ => none

/-! ## Whole addresses -/

/-- What stands in front of the first colon, if it can name a kind of address, and
what follows the colon. -/
def scheme? (cs : List Char) : Option (String × List Char) :=
  let name := cs.takeWhile fun c => c.isAlphanum || c == '+' || c == '-' || c == '.'
  match name, cs.drop name.length with
  | c :: _, ':' :: rest =>
    if c.isAlpha then some (Text.asciiLower (String.ofList name), rest) else none
  | _, _ => none

def serverAddress (scheme : String) (standardSocket : Nat) (cs : List Char) : Address :=
  let cs := cs.dropWhile isSlash
  let inPlace (c : Char) : Bool := !isSlash c && c != '?' && c != '#'
  let authority := cs.takeWhile inPlace
  let rest := cs.dropWhile inPlace
  let place := (authority.reverse.takeWhile (· != '@')).reverse
  let path := rest.takeWhile fun c => c != '?' && c != '#'
  let rest := rest.drop path.length
  let query := rest.takeWhile (· != '#')
  let fragment := rest.drop query.length
  match normalPlace? standardSocket place with
  | none => .unusable
  | some place =>
    let tail := normalPath path
      ++ query.take 1 ++ escape queryMarks (query.drop 1)
      ++ fragment.take 1 ++ escape fragmentMarks (fragment.drop 1)
    .server (scheme ++ "://" ++ place ++ String.ofList tail)

/-- The address in a text. Blanks around it and line ends in it do not count. -/
def ofText (text : String) : Address :=
  let isOuter (c : Char) : Bool := c.toNat ≤ 32
  let cs := ((text.toList.dropWhile isOuter).reverse.dropWhile isOuter).reverse
  let cs := cs.filter fun c => c != '\t' && c != '\n' && c != '\r'
  match scheme? cs with
  | none => .unusable
  | some (scheme, rest) =>
    if scheme = "http" then serverAddress scheme 80 rest
    else if scheme = "https" then serverAddress scheme 443 rest
    else .foreign (scheme ++ ":" ++ String.ofList (escape [] rest))

end Address

end PlanRunner.Http
