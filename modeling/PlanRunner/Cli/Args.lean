import PlanRunner.Cli.Usage

/-!
# PlanRunner — reading the words of a call

Words are read from left to right. After `--` everything is an argument. An option
with a value takes the rest of its own word or the next word, unless that looks like
an option. A value in a word of its own is checked only when the next word is taken,
so a word that does not belong there is complained about first.

* `scanWord` — what one word adds;
* `Command.ofWords` — the command that the words call for.
-/

namespace PlanRunner.Cli

/-- What the program is to do. -/
inductive Command where
  | init (force : Bool)
  | run (query : String) (context : List (String × String)) (json quiet : Bool)
  | layers
  | status
  deriving DecidableEq, Repr

/-- Why a call leads to no command. -/
inductive Refusal where
  | help (level : Level)
  /-- Help for a call that asks for nothing. -/
  | helpOnMissing
  | version
  | misuse (m : Misuse)

/-- What was read so far. -/
structure Scan where
  /-- The option given last, whose value is still to come or to be checked. -/
  pending : Option (OptionSpec × Option String)
  /-- Whether only arguments follow. -/
  escaped : Bool
  /-- The options given, in order. -/
  given : List OptionSpec
  entries : List (String × String)
  argument : Option String

namespace Scan

def start : Scan := ⟨none, false, [], [], none⟩

def has (s : Scan) (long : String) : Bool := s.given.any fun o => o.long == long

def shownOptions (s : Scan) : List String :=
  let last :=
    match s.pending with
    | some (o, some _) => [o]
    | _ => []
  ((s.given ++ last).map OptionSpec.shown).eraseDups

def giveValue (s : Scan) (o : OptionSpec) (value : String) : Except Refusal Scan :=
  match readEntry value with
  | .error fault => .error (.misuse (.badEntry o value fault))
  | .ok entry => .ok { s with given := s.given ++ [o], entries := s.entries ++ [entry] }

/-- Reads the value of the option given last. -/
def settle (s : Scan) : Except Refusal Scan :=
  match s.pending with
  | none => .ok s
  | some (o, none) => .error (.misuse (.needsValue o))
  | some (o, some value) => { s with pending := none }.giveValue o value

def giveFlag (level : Level) (s : Scan) (o : OptionSpec) : Except Refusal Scan :=
  if o.long = "help" then .error (.help level)
  else if o.long = "version" then .error .version
  else if s.given.contains o then .error (.misuse (.repeated level o))
  else .ok { s with given := s.given ++ [o] }

end Scan

/-! ## Words that do not belong -/

/-- The pair with the smallest number, the first one of several. -/
def nearest? : List (Nat × String) → Option (Nat × String)
  | [] => none
  | p :: rest =>
    match nearest? rest with
    | some q => if q.1 < p.1 then some q else some p
    | none => some p

/-- An option like an unknown one, of a command among the words that follow. -/
def optionElsewhere? (level : Level) (name : String) (following : List String) : Option String :=
  let found := level.commands.filterMap fun command => do
    let l ← Level.named? command
    let long ← (Text.alikeAmong name (l.options.map OptionSpec.long)).getLast?
    let place ← following.findIdx? fun word => word == command
    pure (place, s!"{command} --{long}")
  (nearest? found).map Prod.snd

def unknownOption (level : Level) (s : Scan) (name : String) (following : List String) : Refusal :=
  let word := s!"--{name}"
  match (Text.alikeAmong name (level.options.map OptionSpec.long)).getLast? with
  | some long =>
    let meant := level.options.filter fun o => o.long == long
    let given := (s.shownOptions ++ meant.map OptionSpec.shown).eraseDups
    .misuse (.unexpected word (Misuse.similarTip "argument" [s!"--{long}"]) (level.usage given))
  | none =>
    let given := s.shownOptions
    let usage :=
      if given.isEmpty && s.argument.isSome then level.bareUsage else level.usage given
    let tip :=
      match optionElsewhere? level name following with
      | some option => some (Misuse.elsewhereTip option)
      | none => if level.argument.isSome then some (Misuse.escapeTip word) else none
    .misuse (.unexpected word tip usage)

def unknownLetter (level : Level) (c : Char) : Refusal :=
  let word := String.ofList ['-', c]
  let tip := if level.argument.isSome then some (Misuse.escapeTip word) else none
  .misuse (.unexpected word tip (level.usage []))

/-! ## Words -/

/-- A word that starts with two hyphens, without them. -/
def scanLong (level : Level) (s : Scan) (word : List Char) (following : List String) :
    Except Refusal Scan :=
  let name := String.ofList (word.takeWhile (· != '='))
  match level.options.find? fun o => o.long == name with
  | none => .error (unknownOption level s name following)
  | some o =>
    match o.value, word.dropWhile (· != '=') with
    | none, [] => s.settle.bind fun s => s.giveFlag level o
    | none, _ :: value =>
      let usage := level.usage (s.shownOptions ++ [o.shown]).eraseDups
      .error (.misuse (.unexpectedValue o (String.ofList value) usage))
    | some _, [] => s.settle.map fun s => { s with pending := some (o, none) }
    | some _, _ :: value => s.settle.bind fun s => s.giveValue o (String.ofList value)

/-- The letters of a word that starts with one hyphen. -/
def scanShort (level : Level) (s : Scan) : List Char → Except Refusal Scan
  | [] => .ok s
  | c :: rest =>
    match level.options.find? fun o => o.short == some c with
    | none => .error (unknownLetter level c)
    | some o =>
      match s.settle with
      | .error e => .error e
      | .ok s =>
        match o.value with
        | none => (s.giveFlag level o).bind fun s => scanShort level s rest
        | some _ =>
          match rest with
          | [] => .ok { s with pending := some (o, none) }
          | ['='] => s.giveValue o ""
          | '=' :: value => s.giveValue o (String.ofList value)
          | value => s.giveValue o (String.ofList value)

def scanArgument (level : Level) (s : Scan) (word : String) : Except Refusal Scan :=
  if level.argument.isSome && s.argument.isNone then
    s.settle.map fun s => { s with argument := some word }
  else .error (.misuse (.unexpected word none (level.usage [])))

def scanWord (level : Level) (s : Scan) (word : String) (following : List String) :
    Except Refusal Scan :=
  if s.escaped then scanArgument level s word
  else
    match word.toList with
    | ['-', '-'] => .ok { s with escaped := true }
    | '-' :: '-' :: rest => scanLong level s rest following
    | '-' :: c :: rest => scanShort level s (c :: rest)
    | _ =>
      match s.pending with
      | some (o, none) => .ok { s with pending := some (o, some word) }
      | _ => scanArgument level s word

def scanWords (level : Level) : Scan → List String → Except Refusal Scan
  | s, [] => s.settle
  | s, word :: rest => (scanWord level s word rest).bind fun s => scanWords level s rest

def scan (level : Level) (words : List String) : Except Refusal Scan :=
  match scanWords level .start words with
  | .error e => .error e
  | .ok s =>
    match level.argument, s.argument with
    | some a, none => .error (.misuse (.missingArgument level a s.shownOptions))
    | _, _ => .ok s

/-! ## Commands -/

/-- The help that some words ask for. -/
def helpOn (level : Level) : List String → Refusal
  | [] => .help level
  | word :: rest =>
    match Level.named? word with
    | some command =>
      if level = .program then helpOn command rest
      else .misuse (.unknownCommand level word [])
    | none =>
      if word = "help" ∧ level = .program then .help level
      else .misuse (.unknownCommand level word [])

def commandOf (name : String) (words : List String) : Except Refusal Command :=
  if name = "init" then (scan .init words).map fun s => .init (s.has "force")
  else if name = "run" then
    (scan .run words).map fun s =>
      .run (s.argument.getD "") s.entries (s.has "json") (s.has "quiet")
  else if name = "layers" then (scan .layers words).map fun _ => .layers
  else if name = "status" then (scan .status words).map fun _ => .status
  else if name = "help" then .error (helpOn .program words)
  else
    let alike := Text.alikeAmong name Level.program.commands
    .error (.misuse (.unknownCommand .program name alike))

/-- The command that the words after the program's own options call for. A command
cannot come after `--`. -/
def programWords (s : Scan) : List String → Except Refusal Command
  | [] =>
    if s.given.isEmpty then .error .helpOnMissing else .error (.misuse (.noCommand .program))
  | word :: rest =>
    if s.escaped then
      if Level.program.commands.contains word then
        let tip := Misuse.commandTip word
        .error (.misuse (.unexpected word (some tip) (Level.program.usage [])))
      else commandOf word rest
    else
      match word.toList with
      | '-' :: _ :: _ =>
        match scanWord .program s word rest with
        | .error e => .error e
        | .ok s => programWords s rest
      | _ => commandOf word rest

def Command.ofWords (words : List String) : Except Refusal Command := programWords .start words

end PlanRunner.Cli
