import GenLang.Config
import GenLang.Transformation

/-!
# Runs

A run takes a program and a generator source through all stages: the libraries are resolved, the
generators compiled and run on the program, and the program with what they generated is executed.
It gives three texts: what was generated, what was printed, and what went wrong.
-/

namespace GenLang

/-- What a run gives. Nothing went wrong if `error` is empty. -/
structure RunResult where
  generated : String := ""
  output : String := ""
  error : String := ""
deriving DecidableEq, Repr, Inhabited

namespace RunResult

def isSuccess (r : RunResult) : Bool :=
  r.error.isEmpty

def json (r : RunResult) : Json :=
  .obj [("generated_source", .str r.generated), ("program_output", .str r.output),
    ("error", .str r.error)]

/-- A text under a heading. -/
def headed (heading text : String) : String :=
  "=== " ++ heading ++ " ===\n" ++ text ++ "\n"

/-- The texts under headings, without line feeds at the end of what was printed and what went wrong.
The latter is left out if nothing did. -/
def render (r : RunResult) : String :=
  headed "Generated source" r.generated ++
  headed "Program output" (Text.trimLineEnds r.output) ++
  if r.isSuccess then "" else headed "Errors" (Text.trimLineEnds r.error)

end RunResult

/-- What runs share: libraries once they are resolved, and compiled generators. -/
structure Runner where
  config : Config
  resolver : Resolver := {}
  compiler : GeneratorCompiler
deriving Inhabited

namespace Runner

/-- A runner before its first run. -/
def ofConfig (c : Config) : Runner where
  config := c
  compiler :=
    { cache := { capacity := c.cacheCapacity }, fileName := c.generatorFile, limits := c.limits }

/-- Executes what a transformation made of a program. The execution itself cannot be cancelled. -/
def executeAugmented (t : Transformation) (libraries : References) (limits : Limits)
    (patience : Patience) : Except StageError String := do
  match t.augmented with
  | none => throw (.generator t.errors)
  | some c =>
    if c.hasErrors then throw (.compile .program c.errors)
    let bytes ← c.emit.mapError fun e => .emit .program e.message
    let _ ← patience.check.mapError fun _ => .cancelled
    (execute bytes libraries limits).mapError .ofExecutionError

/-- The stages from the program on. The listing of generated units is there even if a later stage
fails. -/
def transform (config : Config) (libraries : References) (generators : List Generator)
    (program : String) (cancellation : Cancellation) :
    Except StageError (String × Except StageError String) := do
  let (plain, patience) ← (Compilation.create "Program" [⟨config.programFile, program⟩] libraries
    .library cancellation.patience).mapError fun _ => .cancelled
  let (t, patience) ← (Transformation.run config.parallel plain generators
    { cancellation with patience }).1.mapError fun _ => .cancelled
  return (t.report, executeAugmented t libraries config.limits patience)

/-- All stages: the listing, as far as one was made, and the output or the first failure. -/
def stages (r : Runner) (sources : List LibrarySource) (program generator : String)
    (cancellation : Cancellation) : (String × Except StageError String) × Runner :=
  if Text.allBlank generator then (("", .error (.inputMissing .generator)), r)
  else if Text.allBlank program then (("", .error (.inputMissing .program)), r)
  else
    let (libraries, resolver) := r.resolver.get sources cancellation.patience
    let r := { r with resolver }
    -- What is resolved or compiled stays for later runs, however this one goes on.
    match libraries with
    | .error e => (("", .error (.ofReferenceError e)), r)
    | .ok (libraries, patience) =>
      let (generators, compiler, _) := r.compiler.compile generator libraries patience
      let r := { r with compiler }
      let outcome := generators.bind fun (generators, patience) =>
        transform r.config libraries generators program { cancellation with patience }
      match outcome with
      | .error e => (("", .error e), r)
      | .ok outcome => (outcome, r)

/-- Runs a program through a generator source. A run that is cancelled has no result. -/
def run (r : Runner) (sources : List LibrarySource) (program generator : String)
    (cancellation : Cancellation) : Except Cancelled RunResult × Runner :=
  match r.stages sources program generator cancellation with
  | ((generated, .ok output), r) => (.ok { generated, output }, r)
  | ((_, .error .cancelled), r) => (.error {}, r)
  | ((generated, .error e), r) => (.ok { generated, error := e.message }, r)

/-- As `run`, never cancelled. -/
def runToEnd (r : Runner) (sources : List LibrarySource) (program generator : String) :
    RunResult × Runner :=
  match r.run sources program generator {} with
  | (.ok result, r) => (result, r)
  | (.error _, r) => ({ error := StageError.cancelled.message }, r)

end Runner

end GenLang
