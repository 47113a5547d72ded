import PlanRunner.Cli.Usage

/-!
# PlanRunner — the help of the program

What is shown to someone who asks for help: what the program or a command does, how
it is called, and its commands, arguments and options in columns.
-/

namespace PlanRunner.Cli

def padTo (width : Nat) (s : String) : String :=
  s ++ String.ofList (List.replicate (width - s.length) ' ')

/-- Rows of two columns under a heading; no heading without rows. -/
def columns (heading : String) (rows : List (String × String)) : String :=
  let width := (rows.map fun r => r.1.length).foldl max 0
  let shown := rows.map fun (left, right) => s!"  {padTo width left}  {right}\n"
  if rows.isEmpty then "" else s!"\n{heading}:\n{String.join shown}"

namespace Level

def aboutCommand (name : String) : String :=
  match named? name with
  | some l => l.about
  | none => "Print this message or the help of the given subcommand(s)"

def aboutArgument : String := "The query to answer"

def optionForms (o : OptionSpec) : String :=
  let short :=
    match o.short with
    | some c => s!"-{c}, "
    | none => "    "
  short ++ o.shown

def helpText (l : Level) : String :=
  s!"{l.about}\n\n{l.usage []}\n"
    ++ columns "Commands" (l.commands.map fun name => (name, aboutCommand name))
    ++ columns "Arguments" (l.argument.toList.map fun a => (s!"<{a}>", aboutArgument))
    ++ columns "Options" (l.options.map fun o => (optionForms o, o.about))

end Level

end PlanRunner.Cli
