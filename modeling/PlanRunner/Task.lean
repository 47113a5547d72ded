import PlanRunner.Text.Blank

/-!
# PlanRunner — tasks for a language model, and the tiers that serve them

Every call to a language model names one of six tasks; every task runs on one of
three tiers. Both have a name that can be read back in any ASCII case and with
white space around it.
-/

namespace PlanRunner

/-- The three independently configured model tiers. -/
inductive Tier where
  | simple
  | medium
  | complex
  deriving DecidableEq, Repr

namespace Tier

/-- All tiers, from the cheapest up. -/
def all : List Tier := [.simple, .medium, .complex]

def name : Tier → String
  | .simple => "simple"
  | .medium => "medium"
  | .complex => "complex"

def parse (s : String) : Except String Tier :=
  let wanted := Text.asciiLower (Text.trim s)
  match all.find? fun t => t.name == wanted with
  | some t => .ok t
  | none => .error s!"unknown complexity tier '{wanted}'"

end Tier

/-- The kinds of work a run asks a language model to do. -/
inductive Task where
  | planCreation
  | evaluation
  | retryStrategy
  | parameterExtraction
  | directAnswerCheck
  | directAnswerGeneration
  deriving DecidableEq, Repr

namespace Task

/-- All tasks in the order in which they are listed to users. -/
def all : List Task :=
  [.planCreation, .evaluation, .retryStrategy, .parameterExtraction, .directAnswerCheck,
    .directAnswerGeneration]

def name : Task → String
  | .planCreation => "plan_creation"
  | .evaluation => "evaluation"
  | .retryStrategy => "retry_strategy"
  | .parameterExtraction => "parameter_extraction"
  | .directAnswerCheck => "direct_answer_check"
  | .directAnswerGeneration => "direct_answer_generation"

def defaultTier : Task → Tier
  | .directAnswerCheck | .parameterExtraction => .simple
  | .planCreation | .evaluation | .directAnswerGeneration => .medium
  | .retryStrategy => .complex

/-- The task with a name, hyphens counting as underscores, or the complaint about
an unknown one. -/
def parse (s : String) : Except String Task :=
  let wanted := (Text.asciiLower (Text.trim s)).map fun c => if c = '-' then '_' else c
  match all.find? fun t => t.name == wanted with
  | some t => .ok t
  | none => .error s!"unknown task kind '{s}'"

end Task

end PlanRunner
