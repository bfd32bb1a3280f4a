import DocQuery.Pipeline

/-!
Finding documents: those that pass a filter, sorted, cut to a window and projected.
-/

namespace DocQuery

/-- What a document does that cannot be tested. -/
inductive ErrorPolicy where
  /-- It ends the search. -/
  | abort
  /-- It is passed over. -/
  | skipDocument
deriving DecidableEq

structure FindOptions where
  projection : Option Value := none
  /-- Fields with 1 for ascending or -1 for descending. -/
  sort : Option (List (String × Int)) := none
  skip : Option Nat := none
  limit : Option Nat := none
  policy : ErrorPolicy := .abort
  /-- How many documents are looked at. -/
  maxScanned : Option Nat := none

namespace FindOptions

def sortStage (keys : List (String × Int)) : Value :=
  .object [("$sort", .object (Fields.ofList (keys.map fun (name, direction) => (name, .int (Int64.ofInt direction)))))]

/-- An empty projection changes nothing. -/
def isEmptyObject : Value → Bool
  | .object [] => true
  | _ => false

/-- The pipeline that the documents found go through. -/
def stages (o : FindOptions) : List Value :=
  (o.sort.toList.filter (!·.isEmpty)).map sortStage ++
    (o.skip.toList.filter (0 < ·)).map (fun n => .object [("$skip", .ofCount n)]) ++
    o.limit.toList.map (fun n => .object [("$limit", .ofCount n)]) ++
    (o.projection.toList.filter (!isEmptyObject ·)).map fun v => .object [("$project", v)]

end FindOptions

/-- Tests a document under a policy. -/
def ErrorPolicy.test (policy : ErrorPolicy) (query : Query) (search : Option TextSearch) (document : Value) :
    Checked Bool :=
  match policy, query.test search document with
  | .skipDocument, .error _ => .ok false
  | _, answer => answer

/-- The documents that pass the filter, after the options have been applied. The filter and the options
    are checked before the first document is looked at; a limit of 0 leaves nothing to check or find. -/
def find (filter : Value) (options : FindOptions) (search : Option TextSearch) (docs : List Value) :
    Outcome (List Value) := do
  let query ← (Query.ofValue filter).mapError .plain
  if options.limit = some 0 then return []
  let pipeline ← Pipeline.ofValue (.array options.stages)
  let scanned := match options.maxScanned with
    | some n => docs.take n
    | none => docs
  let found ← (Stage.keep (options.policy.test query search) scanned).mapError .plain
  pipeline.run {} found

end DocQuery
