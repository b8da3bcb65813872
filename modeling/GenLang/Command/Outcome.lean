import GenLang.Command.Argument

/-!
# Outcomes of commands

A command that is carried out writes a text and says whether all is well. Otherwise it says why it
could not be carried out.
-/

namespace GenLang.Command

/-- How a command ends. -/
inductive Outcome where
  | finished (output : String) (success : Bool)
  /-- Reasons, the outermost first. -/
  | failed (reasons : List String)
  | refused (refusal : Refusal)
deriving DecidableEq, Repr, Inhabited

namespace Outcome

/-- Zero if all is well, one if the command found something wrong, two if it was not carried
out. -/
def exitCode : Outcome → Nat
  | finished _ success => if success then 0 else 1
  | failed _ => 2
  | refused .helpAsked => 0
  | refused .versionAsked => 0
  | refused _ => 2

/-- The complaint of a command that failed. -/
def complaint? : Outcome → Option String
  | failed reasons => some ("error: " ++ ": ".intercalate reasons)
  | _ => none

end Outcome

/-- The reasons for which a text could not be read. -/
def unreadable (path cause : String) : List String :=
  ["failed to read " ++ path, cause]

end GenLang.Command
