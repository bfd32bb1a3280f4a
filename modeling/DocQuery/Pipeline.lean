import DocQuery.Stage

/-!
Pipelines: stages one after the other, each on the documents that the one before it leaves.

A pipeline is read as a whole before it runs. Whatever goes wrong in a stage, on reading or on running, is
reported with the position and the name of the stage.
-/

namespace DocQuery

/-- A stage with the name that it was called by. -/
structure Step where
  name : String
  stage : Stage

abbrev Pipeline := List Step

namespace Step

/-- A step is written as an object of its name and its specification. -/
def ofValue (index : Nat) : Value → Outcome Step
  | .object [(name, v)] => (Stage.ofSpecification name v).map (Step.mk name) |>.mapError (.inStage index name)
  | .object fields => .error (.inStage index "unknown" (.stepOperatorCount (Fields.names fields)))
  | _ => .error (.inStage index "unknown" .stepNotObject)

def run (setting : Setting) (index : Nat) (s : Step) (docs : List Value) : Outcome (List Value) :=
  (s.stage.run setting s.name docs).mapError (.inStage index s.name)

end Step

namespace Pipeline

/-- The steps from a position on. -/
def stepsFrom (index : Nat) : List Value → Outcome Pipeline
  | [] => .ok []
  | v :: rest => do
    let step ← Step.ofValue index v
    return step :: (← stepsFrom (index + 1) rest)

def ofValue : Value → Outcome Pipeline
  | .array items => stepsFrom 0 items
  | _ => .error (.plain .pipelineNotArray)

/-- Runs steps of which the first has this position. -/
def runFrom (setting : Setting) (index : Nat) : Pipeline → List Value → Outcome (List Value)
  | [], docs => .ok docs
  | step :: rest, docs => do runFrom setting (index + 1) rest (← step.run setting index docs)

def checkInput (limits : Limits) (docs : List Value) : Outcome Unit :=
  match limits.maxDocuments with
  | some limit => if limit < docs.length then .error (.plain (.tooManyDocuments docs.length limit)) else .ok ()
  | none => .ok ()

def run (pipeline : Pipeline) (setting : Setting) (docs : List Value) : Outcome (List Value) := do
  checkInput setting.limits docs
  pipeline.runFrom setting 0 docs

end Pipeline

/-- Reads a pipeline and runs it. -/
def aggregate (pipeline : Value) (setting : Setting) (docs : List Value) : Outcome (List Value) := do
  (← Pipeline.ofValue pipeline).run setting docs

end DocQuery
