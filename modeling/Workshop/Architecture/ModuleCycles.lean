/-
The check for cycles between modules: the graph of the imports between modules, the
shortest cycle through each dependency, and the answer, which lists each cycle once.
-/
import Mathlib.Data.List.Rotate
import Mathlib.Data.List.Sort
import Workshop.Library.ShortestPaths
import Workshop.Shared.CodeUnits

namespace Workshop

namespace Architecture

/-- A file as dependency-cruiser lists it, with the resolved name of every dependency. -/
structure CruisedModule where
  source : String
  dependencies : Option (List String)
deriving DecidableEq, Repr

/-- One dependency between two modules, with a file that imports and the file it
imports. -/
structure Step where
  fromModule : String
  toModule : String
  importer : String
  imported : String
deriving DecidableEq, Repr

/-- The steps out of every module, under the module they lead to, in the order the
maps were filled. -/
abbrev ModuleGraph := List (String × List (String × Step))

/-- The folder of a file under `src/modules`, or `src/shared`: a match of
`MODULE_FOLDER`. -/
def moduleOf (file : String) : Option String :=
  match file.toList.dropPrefix? "src/modules/".toList with
  | some rest =>
      let name := rest.takeWhile (· ≠ '/')
      if name ≠ [] ∧ name.length < rest.length then
        some ("src/modules/" ++ String.ofList name)
      else none
  | none =>
      if "src/shared/".toList <+: file.toList then some "src/shared" else none

/-- The text two steps are compared by. -/
def stepText (step : Step) : String := step.importer ++ "\t" ++ step.imported

def precedes (a b : Step) : Bool := decide (codeUnits (stepText a) < codeUnits (stepText b))

/-- `graph.get(name)?.entries() ?? []` -/
def entriesOf (graph : ModuleGraph) (name : String) : List (String × Step) :=
  ((graph.find? fun entry => entry.1 = name).map Prod.snd).getD []

/-- `edgesOf`: opens the entry of a module that has none. -/
def openModule (graph : ModuleGraph) (name : String) : ModuleGraph :=
  if graph.any fun entry => entry.1 = name then graph else graph ++ [(name, [])]

/-- `edges.set(to, step)` on the edges of the module it leads from. -/
def setStep (graph : ModuleGraph) (step : Step) : ModuleGraph :=
  graph.map fun entry =>
    if entry.1 = step.fromModule
    then (entry.1, upsert Prod.fst (step.toModule, step) entry.2) else entry

def addDependency (fromModule importer : String) (graph : ModuleGraph)
    (resolved : String) : ModuleGraph :=
  match moduleOf resolved with
  | none => graph
  | some toModule =>
      if toModule = fromModule then graph
      else
        let graph := openModule graph toModule
        let step : Step := { fromModule, toModule, importer, imported := resolved }
        match (entriesOf graph fromModule).find? fun entry => entry.1 = toModule with
        | none => setStep graph step
        | some (_, known) => if precedes step known then setStep graph step else graph

def addFile (graph : ModuleGraph) (file : CruisedModule) : ModuleGraph :=
  match moduleOf file.source with
  | none => graph
  | some fromModule =>
      (file.dependencies.getD []).foldl (addDependency fromModule file.source)
        (openModule graph fromModule)

/-- An edge for each pair of modules where a file of one imports a file of the other. -/
def moduleGraph (files : List CruisedModule) : ModuleGraph := files.foldl addFile []

/-- The entries of a module in the order of their names. -/
def sortedEntries (graph : ModuleGraph) (name : String) : List (String × Step) :=
  (entriesOf graph name).insertionSort fun a b => codeUnits a.1 ≤ codeUnits b.1

/-- The fewest dependencies that lead from one module to another. -/
def shortestPath (graph : ModuleGraph) (first goal : String) (fuel : Nat) :
    Option (Option (List Step)) :=
  (shortestWay (fun entry => entry.2.fromModule) Prod.fst (sortedEntries graph) first goal
    fuel).map (Option.map (List.map Prod.snd))

/-- The index of the first step out of the least module. -/
def firstIndex (cycle : List Step) : Nat :=
  cycle.zipIdx.foldl (fun low entry =>
    match cycle[low]? with
    | some lowest =>
        if codeUnits entry.1.fromModule < codeUnits lowest.fromModule then entry.2 else low
    | none => low) 0

/-- The cycle from its least module on. -/
def rotated (cycle : List Step) : List Step :=
  cycle.drop (firstIndex cycle) ++ cycle.take (firstIndex cycle)

/-- The names of the modules of a cycle in one text. -/
def cycleKey (cycle : List Step) : String :=
  String.intercalate " " (cycle.map Step.fromModule)

/-- Adds the shortest cycle that the step closes, if any, under its key. -/
def addCycle (graph : ModuleGraph) (fuel : Nat) (cycles : List (String × List Step))
    (step : Step) : Option (List (String × List Step)) := do
  match ← shortestPath graph step.toModule step.fromModule fuel with
  | none => return cycles
  | some way =>
      let cycle := rotated (step :: way)
      return upsert Prod.fst (cycleKey cycle, cycle) cycles

/-- Every step of the graph, module by module. -/
def stepsOf (graph : ModuleGraph) : List Step :=
  graph.flatMap fun entry => entry.2.map Prod.snd

/-- Every dependency that closes a cycle gives its shortest cycle; rotations of one cycle
count once.  `none` means that the bound on the searches was too small. -/
def findCycles (graph : ModuleGraph) (fuel : Nat) : Option (List (List Step)) := do
  let cycles ← (stepsOf graph).foldlM (addCycle graph fuel) []
  return (cycles.insertionSort fun a b => codeUnits a.1 ≤ codeUnits b.1).map Prod.snd

end Architecture

end Workshop
