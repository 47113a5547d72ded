import PlanRunner.Cli.Args
import PlanRunner.Cli.Progress
import PlanRunner.Cli.Report
import PlanRunner.Config.Load
import PlanRunner.Engine.Basic
import PlanRunner.Files.Rules
import PlanRunner.Layer.Builtin
import PlanRunner.Provider.Factory

/-!
# PlanRunner — the program

A call of the program is a function of its words and of what it finds around it: the
environment, the files and the servers. It gives what is printed, the exit code and
the files afterwards. Only `init` changes files.

* `Caller` — what the program finds;
* `Outcome` — what a call leaves behind;
* `Caller.call` — a call with some words.
-/

namespace PlanRunner.Cli

/-- What the program finds when it is called, in a world with states `σ`. -/
structure Caller (σ : Type) where
  /-- The directory below which the configuration is kept. -/
  home : String
  /-- The working directory. -/
  cwd : String
  /-- The variables of the environment. -/
  lookup : String → Option String
  files : FileTree
  transport : Http.Transport σ
  world : σ

/-- What a call of the program leaves behind. -/
structure Outcome (σ : Type) where
  exit : Nat
  out : String
  err : String
  files : FileTree
  world : σ

namespace Caller

variable {σ : Type}

def done (c : Caller σ) (exit : Nat) (out err : String) : Outcome σ :=
  ⟨exit, out, err, c.files, c.world⟩

def giveUp (c : Caller σ) (out : String) (fault : ExitFault) : Outcome σ :=
  c.done 1 out s!"Error: {fault.shown}\n"

/-! ## The configuration -/

def configDir (c : Caller σ) : String := Path.join c.home ".layerflow"

def configPath (c : Caller σ) : String := Path.join c.configDir "config.toml"

def absolute (c : Caller σ) (path : String) : String := Path.join c.cwd path

def hasConfig (c : Caller σ) : Bool := c.files.contains (c.absolute c.configPath)

/-- What is at the place of the configuration. -/
def foundConfig (c : Caller σ) : Config.Found :=
  if c.hasConfig then
    match c.files.readText (c.absolute c.configPath) with
    | .ok text => .text text
    | .error fault => .unreadable fault.message
  else .missing

/-- The configuration under the settings of the environment. -/
def config (c : Caller σ) : Except ConfigError Config :=
  Config.load c.configPath c.foundConfig c.lookup

/-! ## Commands -/

/-- Writes the standard configuration. One that is there is left alone unless it is
to be replaced. -/
def setUp (c : Caller σ) (force : Bool) : Outcome σ :=
  let dir := c.absolute c.configDir
  let existed := c.files.contains dir
  let made := if existed then .ok c.files else c.files.makeDir dir
  match made with
  | .error fault => c.giveUp (Report.lines Report.setupOpening) (.files fault)
  | .ok files =>
    let c := { c with files := files }
    let opening := Report.setupOpening ++ Report.setupDirectory c.configDir existed
    if c.hasConfig && !force then
      c.done 0 (Report.lines (opening ++ Report.setupKept c.configPath)) ""
    else
      match files.write (c.absolute c.configPath) Config.standardToml with
      | .error fault => c.giveUp (Report.lines opening) (.files fault)
      | .ok files =>
        let c := { c with files := files }
        c.done 0 (Report.lines (opening ++ Report.setupWritten c.configPath)) ""

def registry (c : Caller σ) (config : Config) : Registry σ :=
  Registry.builtin.registerRemote c.transport config.endpoints

def listLayers (c : Caller σ) : Outcome σ :=
  match c.config with
  | .error e => c.giveUp "" (.config e)
  | .ok config =>
    let infos := (c.registry config).describe
    c.done 0 (Report.lines (Report.layers infos config.endpoints.length)) ""

/-- Why the models of a configuration cannot be used, if so. -/
def modelComplaint? (models : ModelConfig) : Option RunError :=
  match Factory.ofConfig models with
  | .ok _ => none
  | .error e => some e

def showStatus (c : Caller σ) : Outcome σ :=
  match c.config with
  | .error e => c.giveUp "" (.config e)
  | .ok config =>
    match config.models.routes with
    | .error e => c.giveUp "" (.config e)
    | .ok routing =>
      let report := Report.status c.configDir config routing c.hasConfig
        (modelComplaint? config.models)
      c.done 0 (Report.lines report) ""

/-- The facts of a request. The working directory stands in for the root of the
project; of two entries with one key the later one counts. -/
def requestFacts (c : Caller σ) (entries : List (String × String)) : Facts :=
  let given := Facts.ofList (entries.map fun (key, text) => (key, Value.str text))
  (Facts.empty.set projectRootKey (.str c.cwd)).overlay given

/-- What runs are carried out with under a configuration. -/
def services (c : Caller σ) (config : Config) (factory : Factory) : Services σ where
  registry := c.registry config
  createClient task world := (factory.client c.transport task, world)
  rules := rulesInFiles config.rules c.files c.cwd
  settings := config.settings

def engine (c : Caller σ) (config : Config) : Engine σ :=
  Engine.start config.settings (Facts.empty.set cwdKey (.str c.cwd)) c.world 0

/-- The states that an engine made known, as far as they are kept. -/
def publishedStates (e : Engine σ) : List RunState :=
  (e.around.bus.drain 0).1.filterMap fun
    | .item s => some s
    | _ => none

/-- Prints the result of a run, or all that is known about it. -/
def showResult (c : Caller σ) (result : RunResult) (json : Bool) (progress : String) :
    Outcome σ :=
  if json then c.done 0 s!"{result.record.pretty}\n" progress
  else
    match result.error with
    | none => c.done 0 s!"{result.text}\n" progress
    | some error =>
      let shown := (ExitFault.run error).shown
      if result.text.isEmpty then c.done 1 "" s!"{progress}Error: {shown}\n"
      else c.done 1 s!"{result.text}\n" s!"{progress}  Partial result:\nError: {shown}\n"

def answer (c : Caller σ) (query : String) (entries : List (String × String))
    (json quiet : Bool) : Outcome σ :=
  match c.config with
  | .error e => c.giveUp "" (.config e)
  | .ok config =>
    match Factory.ofConfig config.models with
    | .error e => c.giveUp "" (.models e)
    | .ok factory =>
      let executed := (c.engine config).execute (c.services config factory) query
        (c.requestFacts entries) none
      match executed with
      | .error e => c.giveUp "" (.run e.message)
      | .ok engine =>
        let c := { c with world := engine.around.world }
        let progress := if quiet then [] else progressOf none (publishedStates engine)
        match engine.history.recent 1 with
        | entry :: _ => c.showResult entry.result json (Report.lines progress)
        | [] => c.done 0 "" (Report.lines progress)

/-! ## Calls -/

/-- The file of rules that a call looks into, if it looks into one. -/
def rulesPath? (c : Caller σ) (words : List String) : Option String :=
  match Command.ofWords words, c.config with
  | .ok (.run _ entries _ _), .ok config =>
    (ProjectContext.requestedRoot (c.requestFacts entries)).map fun root =>
      config.rules.pathIn (c.absolute root)
  | _, _ => none

def carryOut (c : Caller σ) : Command → Outcome σ
  | .init force => c.setUp force
  | .run query entries json quiet => c.answer query entries json quiet
  | .layers => c.listLayers
  | .status => c.showStatus

def refuse (c : Caller σ) : Refusal → Outcome σ
  | .help level => c.done 0 level.helpText ""
  | .helpOnMissing => c.done 2 "" Level.program.helpText
  | .version => c.done 0 s!"{programName} {version}\n" ""
  | .misuse m => c.done 2 "" m.message

def call (c : Caller σ) (words : List String) : Outcome σ :=
  match Command.ofWords words with
  | .ok command => c.carryOut command
  | .error refusal => c.refuse refusal

end Caller

end PlanRunner.Cli
