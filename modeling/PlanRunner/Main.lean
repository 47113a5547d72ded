import PlanRunner.Cli.Program

/-!
# PlanRunner — the command line

Reads what a call of the program needs from the machine, makes the call, prints what
it says and writes a new configuration back. No server can be reached from here.
-/

namespace PlanRunner.Cli

/-- The tree with what the machine has at a path. -/
def readInto (tree : FileTree) (path : String) : IO FileTree := do
  try
    let content ← IO.FS.readBinFile path
    pure (tree.plant path content)
  catch
    -- The number of the fault that a directory is no file.
    | .inappropriateType _ 21 _ => pure ((tree.makeDir path).toOption.getD tree)
    | _ => pure tree

/-- A call with the words of the command line. -/
def callFromMachine (words : List String) : IO UInt32 := do
  let home := (← IO.getEnv "HOME").getD "/tmp"
  let cwd := (← IO.currentDir).toString
  let found ← environmentVariables.filterMapM fun name => do
    pure ((← IO.getEnv name).map fun value => (name, value))
  let caller : Caller Unit :=
    ⟨home, cwd, fun name => found.lookup name, FileTree.empty, Http.Transport.none Unit, ()⟩
  let directory := caller.absolute caller.configDir
  let path := caller.absolute caller.configPath
  let files ← readInto (← readInto caller.files directory) path
  let caller := { caller with files := files }
  let files ←
    match caller.rulesPath? words with
    | some rules => readInto files rules
    | none => pure files
  let outcome := { caller with files := files }.call words
  let written := outcome.files.readText path
  if written.toOption != (files.readText path).toOption then
    IO.FS.createDirAll directory
    IO.FS.writeFile path (written.toOption.getD "")
  IO.print outcome.out
  IO.eprint outcome.err
  pure outcome.exit.toUInt32

end PlanRunner.Cli

def main (args : List String) : IO UInt32 :=
  PlanRunner.Cli.callFromMachine args
