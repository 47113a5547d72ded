import PlanRunner.Text.Blank
import PlanRunner.Text.Similarity

/-!
# PlanRunner — how the program is called

The options of the program and of its commands, and what is said of a call that does
not fit them. One option takes entries of the form `key=value`: the first `=` ends the
key, white space around the key does not belong to it, and the value is taken as it is.

* `readEntry` — an entry, or what is wrong with it;
* `Level` — the program or one of its commands with its options;
* `Misuse.message` — what is said of a wrong call.
-/

namespace PlanRunner.Cli

/-- The complaint about an entry. -/
inductive EntryFault where
  | noValue (entry : String)
  | emptyKey (entry : String)
  deriving DecidableEq, Repr

def EntryFault.message : EntryFault → String
  | .noValue entry => s!"expected key=value, got '{entry}'"
  | .emptyKey entry => s!"empty key in '{entry}'"

def readEntry (entry : String) : Except EntryFault (String × String) :=
  let cs := entry.toList
  match cs.dropWhile (· != '=') with
  | [] => .error (.noValue entry)
  | _ :: value =>
    let key := Text.trimChars (cs.takeWhile (· != '='))
    if key.isEmpty then .error (.emptyKey entry)
    else .ok (String.ofList key, String.ofList value)

def programName : String := "layerflow"

def version : String := "0.1.0"

/-- An option. One with a value may be given several times. -/
structure OptionSpec where
  long : String
  short : Option Char
  /-- The name of its value, if it takes one. -/
  value : Option String
  about : String
  deriving DecidableEq, Repr

def OptionSpec.shown (o : OptionSpec) : String :=
  match o.value with
  | some value => s!"--{o.long} <{value}>"
  | none => s!"--{o.long}"

/-- The program or one of its commands. -/
structure Level where
  /-- The words that call it. -/
  call : String
  about : String
  options : List OptionSpec
  /-- The name of its argument, if it takes one; it may not be left out. -/
  argument : Option String
  /-- The names of its commands. -/
  commands : List String
  deriving DecidableEq, Repr

namespace Level

def verbose : OptionSpec := ⟨"verbose", some 'v', none, "Enable verbose logging"⟩

def help : OptionSpec := ⟨"help", some 'h', none, "Print help"⟩

def versionOption : OptionSpec := ⟨"version", some 'V', none, "Print version"⟩

def program : Level where
  call := programName
  about := "LayerFlow — LLM-planned, tree-structured capability execution"
  options := [verbose, help, versionOption]
  argument := none
  commands := ["init", "run", "layers", "status", "help"]

/-- A command with its own options. -/
def command (name about : String) (own : List OptionSpec) (argument : Option String) : Level where
  call := s!"{programName} {name}"
  about := about
  options := own ++ [verbose, help]
  argument := argument
  commands := []

def init : Level :=
  command "init" "Write ~/.layerflow/config.toml with defaults"
    [⟨"force", none, none, "Overwrite an existing config file"⟩] none

def run : Level :=
  command "run" "Plan and execute a query"
    [⟨"context", some 'c', some "CONTEXT",
        "Request context entry (repeatable), e.g. -c projectRoot=/src/app"⟩,
      ⟨"json", none, none, "Print the full execution result as JSON"⟩,
      ⟨"quiet", some 'q', none, "Don't stream progress to stderr"⟩]
    (some "QUERY")

def layers : Level := command "layers" "List registered layers and their functions" [] none

def status : Level :=
  command "status" "Show configuration and whether the tier setup is usable" [] none

def named? (name : String) : Option Level :=
  [("init", init), ("run", run), ("layers", layers), ("status", status)].lookup name

/-- What comes after the options in the usage. -/
def usageTail (l : Level) : String :=
  let argument := (l.argument.map fun a => s!" <{a}>").getD ""
  argument ++ if l.commands.isEmpty then "" else " <COMMAND>"

def usage (l : Level) (given : List String) : String :=
  let options := String.join (given.map fun o => " " ++ o)
  let options := if given.isEmpty then " [OPTIONS]" else options
  s!"Usage: {l.call}{options}{l.usageTail}"

/-- The usage when the argument is there but no option counts. -/
def bareUsage (l : Level) : String := s!"Usage: {l.call}{l.usageTail}"

end Level

/-- What is wrong with a call. -/
inductive Misuse where
  | noCommand (level : Level)
  | unknownCommand (level : Level) (word : String) (alike : List String)
  /-- A word that does not belong there, with what may have been meant. -/
  | unexpected (word : String) (tip : Option String) (usage : String)
  | repeated (level : Level) (option : OptionSpec)
  | needsValue (option : OptionSpec)
  | unexpectedValue (option : OptionSpec) (value usage : String)
  | badEntry (option : OptionSpec) (entry : String) (fault : EntryFault)
  | missingArgument (level : Level) (argument : String) (given : List String)

namespace Misuse

def similarTip (what : String) : List String → Option String
  | [] => none
  | [one] => some s!"a similar {what} exists: '{one}'"
  | many =>
    let listed := ", ".intercalate (many.map fun one => s!"'{one}'")
    some s!"some similar {what}s exist: {listed}"

def escapeTip (word : String) : String := s!"to pass '{word}' as a value, use '-- {word}'"

def elsewhereTip (option : String) : String := s!"'{option}' exists"

def commandTip (word : String) : String :=
  s!"subcommand '{word}' exists; to use it, remove the '--' before it"

def complaint : Misuse → String
  | .noCommand level =>
    let listed := ", ".intercalate level.commands
    s!"'{level.call}' requires a subcommand but one was not provided\n  [subcommands: {listed}]"
  | .unknownCommand _ word _ => s!"unrecognized subcommand '{word}'"
  | .unexpected word _ _ => s!"unexpected argument '{word}' found"
  | .repeated _ option => s!"the argument '{option.shown}' cannot be used multiple times"
  | .needsValue option => s!"a value is required for '{option.shown}' but none was supplied"
  | .unexpectedValue option value _ =>
    s!"unexpected value '{value}' for '{option.shown}' found; no more were expected"
  | .badEntry option entry fault =>
    s!"invalid value '{entry}' for '{option.shown}': {fault.message}"
  | .missingArgument _ argument _ =>
    s!"the following required arguments were not provided:\n  <{argument}>"

def tip? : Misuse → Option String
  | .unknownCommand _ _ alike => similarTip "subcommand" alike
  | .unexpected _ tip _ => tip
  | _ => none

/-- The usage that is shown with a complaint, if any. -/
def usage? : Misuse → Option String
  | .noCommand level => some (level.usage [])
  | .unknownCommand level _ _ => some (level.usage [])
  | .unexpected _ _ usage => some usage
  | .repeated level _ => some (level.usage [])
  | .needsValue _ => none
  | .unexpectedValue _ _ usage => some usage
  | .badEntry _ _ _ => none
  | .missingArgument level _ given =>
    some (if given.isEmpty then level.bareUsage else level.usage given)

def message (m : Misuse) : String :=
  let tip := (m.tip?.map fun t => s!"\n\n  tip: {t}").getD ""
  let usage := (m.usage?.map fun u => s!"\n\n{u}").getD ""
  s!"error: {m.complaint}{tip}{usage}\n\nFor more information, try '--help'.\n"

end Misuse

end PlanRunner.Cli
