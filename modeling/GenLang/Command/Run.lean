import GenLang.Command.Outcome
import GenLang.Command.Settings
import GenLang.Runner
import GenLang.Sample

/-!
# The command that runs programs

Runs a program through a generator, both from files or from a sample, and writes the result.
-/

namespace GenLang.Command

/-- What the command is asked for. -/
structure RunArguments where
  program : Option String := none
  generator : Option String := none
  sample : Option String := none
  listSamples : Bool := false
  format : Format := .text
  verbose : Bool := false
  settings : Settings := {}
deriving DecidableEq, Repr, Inhabited

namespace RunArguments

def grammar : Grammar where
  switches :=
    [{ name := "sample", effect := .take .text }, { name := "list-samples" }, Format.switch] ++
      Settings.switches
  positions := [⟨"program", .path, false⟩, ⟨"generator", .path, false⟩]

/-- A program needs a generator and goes with no sample. -/
def read (args : List String) : Except Refusal RunArguments := do
  let v ← grammar.read args
  let a : RunArguments :=
    { program := v.first? "program"
      generator := v.first? "generator"
      sample := v.first? "sample"
      listSamples := v.has "list-samples"
      format := .ofValues v
      verbose := v.has "verbose"
      settings := .ofValues v }
  if a.program.isSome && a.sample.isSome then throw .conflict
  if a.program.isSome && a.generator.isNone then throw .missing
  return a

variable {m : Type → Type} [Monad m]

/-- The texts of program and generator. -/
def sources (files : Files m) (a : RunArguments) : m (Except (List String) (String × String)) := do
  match a.sample, a.program, a.generator with
  | some name, _, _ =>
    match Sample.find? name with
    | some s => return .ok (s.program, s.generator)
    | none => return .error ["unknown sample '" ++ name ++ "' (try --list-samples)"]
  | none, some program, some generator =>
    match ← files.readText program with
    | .error cause => return .error (unreadable program cause)
    | .ok programText =>
      match ← files.readText generator with
      | .error cause => return .error (unreadable generator cause)
      | .ok generatorText => return .ok (programText, generatorText)
  | none, _, _ => return .error ["expected PROGRAM and GENERATOR files, or --sample NAME"]

/-- A result as it is written. -/
def write (format : Format) (r : RunResult) : String :=
  match format with
  | .text => r.render
  | .json => r.json.pretty ++ "\n"

/-- Carries the command out. -/
def execute (files : Files m) (a : RunArguments) : m Outcome := do
  if a.listSamples then
    return .finished (String.join (Sample.names.map (· ++ "\n"))) true
  match ← a.sources files with
  | .error reasons => return .failed reasons
  | .ok (program, generator) =>
    match ← a.settings.resolve files with
    | .error reasons => return .failed reasons
    | .ok config =>
      let libraries ← files.librarySources config.libraryDirectory
      let (result, _) := (Runner.ofConfig config).runToEnd libraries program generator
      return .finished (write a.format result) result.isSuccess

end RunArguments

end GenLang.Command
