import GenLang.Command.Outcome
import GenLang.Command.Settings
import GenLang.Reference
import GenLang.Report

/-!
# The command that checks files

Compiles files together as a library and reports what is wrong with them.
-/

namespace GenLang

/-- What is wrong with units that are compiled together; or why the libraries they need are not
there, the outermost reason first. -/
def checkUnits (sources : List LibrarySource) (units : List SourceUnit) :
    Except (List String) (List Diagnostic) := do
  let libraries ← (References.resolveToEnd sources).mapError fun e =>
    "failed to resolve reference libraries" :: e.messages
  return (Compilation.ofUnits "Check" units libraries .library).diagnostics

namespace Command

/-- What the command is asked for. -/
structure CheckArguments where
  files : List String := []
  quiet : Bool := false
  format : Format := .text
  verbose : Bool := false
  settings : Settings := {}
deriving DecidableEq, Repr, Inhabited

namespace CheckArguments

def grammar : Grammar where
  switches := [{ name := "quiet", short := some 'q' }, Format.switch] ++ Settings.switches
  positions := [⟨"files", .path, true⟩]

/-- There has to be a file. -/
def read (args : List String) : Except Refusal CheckArguments := do
  let v ← grammar.read args
  if !v.has "files" then throw .missing
  return {
    files := v.all "files"
    quiet := v.has "quiet"
    format := .ofValues v
    verbose := v.has "verbose"
    settings := .ofValues v }

variable {m : Type → Type} [Monad m]

/-- Files as units under the names by which they were asked for. -/
def readUnits (files : Files m) : List String → m (Except (List String) (List SourceUnit))
  | [] => return .ok []
  | path :: paths => do
    match ← files.readText path with
    | .error cause => return .error (unreadable path cause)
    | .ok text =>
      match ← readUnits files paths with
      | .error reasons => return .error reasons
      | .ok units => return .ok (⟨path, text⟩ :: units)

/-- Diagnostics as they are written. -/
def write (format : Format) (units : List SourceUnit) (diagnostics : List Diagnostic) : String :=
  match format with
  | .text =>
    Report.ofDiagnostics ⟨units⟩ diagnostics ++ (Counts.ofDiagnostics diagnostics).summary
  | .json => (Report.json diagnostics).pretty ++ "\n"

/-- Carries the command out. -/
def execute (files : Files m) (a : CheckArguments) : m Outcome := do
  match ← a.settings.resolve files with
  | .error reasons => return .failed reasons
  | .ok config =>
    match ← readUnits files a.files with
    | .error reasons => return .failed reasons
    | .ok units =>
      match checkUnits (← files.librarySources config.libraryDirectory) units with
      | .error reasons => return .failed reasons
      | .ok diagnostics =>
        return .finished (if a.quiet then "" else write a.format units diagnostics)
          ((Counts.ofDiagnostics diagnostics).errors == 0)

end CheckArguments

end Command

end GenLang
