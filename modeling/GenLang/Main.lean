import GenLang.Command.Check
import GenLang.Command.Run
import GenLang.Command.Watch

/-!
# The program

One program with three commands: `run`, `check` and `watch`. All that is done here is to read files
and to write what the commands say.
-/

namespace GenLang.Command

/-- The system's reason for a failure. -/
def systemCause : IO.Error → String
  | .noFileOrDirectory .. => noSuchFile
  | e => toString e

/-- The files of the system. -/
def systemFiles : Files IO where
  read path := do
    try
      return .ok (← IO.FS.readBinFile path).data.toList
    catch e => return .error (systemCause e)
  entries path := do
    try
      let mut entries := []
      for entry in ← ((← IO.currentDir) / path).readDir do
        if ← entry.path.isDir then
          entries := (entry.fileName, none) :: entries
        else
          entries := (entry.fileName, some (← IO.FS.readBinFile entry.path).data.toList) :: entries
      return .ok entries
    catch e => return .error (systemCause e)

def usage : String :=
  "Usage: genlang run [OPTIONS] [PROGRAM GENERATOR]\n" ++
  "       genlang check [OPTIONS] FILE...\n" ++
  "       genlang watch [OPTIONS] PROGRAM GENERATOR\n"

def Refusal.message : Refusal → String
  | unknown => "unexpected argument"
  | invalidValue => "a value is missing or not one of those there are"
  | malformedNumber => "a value is not a number"
  | unexpectedValue => "a value where none is taken"
  | conflict => "an argument is given twice or with another that excludes it"
  | missing => "a required argument is missing"
  | helpAsked => ""
  | versionAsked => "genlang 0.3.0"

/-- Writes what a command says; the answer is the code of the program. -/
def report (outcome : Outcome) : IO UInt32 := do
  match outcome with
  | .finished output _ => IO.print output
  | .failed _ => IO.eprintln (outcome.complaint?.getD "")
  | .refused .helpAsked => IO.print usage
  | .refused .versionAsked => IO.println Refusal.versionAsked.message
  | .refused refusal => IO.eprint ("error: " ++ refusal.message ++ "\n\n" ++ usage)
  return UInt32.ofNat outcome.exitCode

/-- Looks at the files again and again. -/
partial def watchLoop (a : WatchArguments) (directory : Option String)
    (w : WatchArguments.Watch) : IO UInt32 := do
  let w ←
    match ← systemFiles.readText a.program, ← systemFiles.readText a.generator with
    | .ok program, .ok generator => do
      let (text, w) := w.look (← systemFiles.librarySources directory) program generator
      IO.print (text.getD "")
      (← IO.getStdout).flush
      pure w
    | _, _ => pure w
  IO.sleep (UInt32.ofNat (max a.interval 10))
  watchLoop a directory w

def watch (args : List String) : IO UInt32 := do
  match WatchArguments.read args with
  | .error refusal => report (.refused refusal)
  | .ok a =>
    match ← a.settings.resolve systemFiles with
    | .error reasons => report (.failed reasons)
    | .ok config =>
      watchLoop a config.libraryDirectory { session := { runner := .ofConfig config } }

/-- Carries out the command that the first argument names. -/
def dispatch (args : List String) : IO UInt32 := do
  match args with
  | "run" :: args =>
    match RunArguments.read args with
    | .error refusal => report (.refused refusal)
    | .ok a => report (← a.execute systemFiles)
  | "check" :: args =>
    match CheckArguments.read args with
    | .error refusal => report (.refused refusal)
    | .ok a => report (← a.execute systemFiles)
  | "watch" :: args => watch args
  | _ => report (.refused .missing)

end GenLang.Command

def main (args : List String) : IO UInt32 :=
  GenLang.Command.dispatch args
