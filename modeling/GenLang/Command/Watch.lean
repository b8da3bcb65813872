import GenLang.Command.Outcome
import GenLang.Command.Settings
import GenLang.Session

/-!
# The command that watches files

Runs a program through a generator whenever one of the two files has changed. What is here is one
look at the files; looking again and again is left to the program.
-/

namespace GenLang.Command

/-- What the command is asked for. -/
structure WatchArguments where
  program : String
  generator : String
  /-- Milliseconds between two looks. -/
  interval : Nat := 300
  verbose : Bool := false
  settings : Settings := {}
deriving DecidableEq, Repr, Inhabited

namespace WatchArguments

def grammar : Grammar where
  switches := { name := "interval", effect := .take .word } :: Settings.switches
  positions := [⟨"program", .path, false⟩, ⟨"generator", .path, false⟩]

/-- Both files have to be there. -/
def read (args : List String) : Except Refusal WatchArguments := do
  let v ← grammar.read args
  match v.first? "program", v.first? "generator" with
  | some program, some generator =>
    return {
      program, generator
      interval := (v.number? "interval").getD 300
      verbose := v.has "verbose"
      settings := .ofValues v }
  | _, _ => throw .missing

/-- The state between two looks: a session and the texts seen last. -/
structure Watch where
  session : Session
  seen : Option (String × String) := none
deriving Inhabited

/-- Runs texts that were not seen at the last look; what is written for them. -/
def Watch.look (w : Watch) (sources : List LibrarySource) (program generator : String) :
    Option String × Watch :=
  if w.seen == some (program, generator) then (none, w)
  else
    let (_, session) := w.session.submit sources program generator
    let text := session.latest.map fun (revision, result) =>
      "--- revision " ++ toString revision ++ " ---\n" ++ result.render
    (text, ⟨session, some (program, generator)⟩)

end WatchArguments

end GenLang.Command
