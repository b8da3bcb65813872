import GenLang.Execution

/-!
# Stages of a run

A run takes a generator and a program through stages, and ends at the first that fails. What a
failure says begins with the stage, and goes on with the diagnostics or the cause.
-/

namespace GenLang

/-- The two texts that a run is given. -/
inductive Artifact where
  | generator
  | program
deriving DecidableEq, Repr, Inhabited

def Artifact.name : Artifact → String
  | generator => "generator"
  | program => "program"

/-- How a stage fails. -/
inductive StageError where
  | inputMissing (artifact : Artifact)
  | references (error : ReferenceError)
  | compile (stage : Artifact) (errors : List Diagnostic)
  | emit (stage : Artifact) (cause : String)
  /-- No class of a module is a generator; the types it has. -/
  | instantiation (types : List String)
  | generator (errors : List Diagnostic)
  | execution (error : ExecutionError)
  | cancelled
deriving DecidableEq, Repr, Inhabited

namespace StageError

/-- Diagnostics, one a line. -/
def lines (diagnostics : List Diagnostic) : String :=
  "\n".intercalate (diagnostics.map (·.render))

/-- What was printed before an exception stands in front of it. -/
def executionText (e : ExecutionError) : String :=
  let printed :=
    match e.partialOutput? with
    | some output => output ++ (if output.endsWith "\n" then "" else "\n") ++ "\n"
    | none => ""
  printed ++ "Error executing program:\n\n" ++ e.message

def message : StageError → String
  | inputMissing a => "Cannot run yet, need more input for the " ++ a.name ++ " code."
  | references e =>
    "Error(s) resolving references:\n\ncould not resolve references: " ++ e.message
  | compile stage errors => "Error(s) compiling " ++ stage.name ++ ":\n\n" ++ lines errors
  | emit stage cause => "Error emitting " ++ stage.name ++ ":\n\n" ++ cause
  | instantiation types =>
    "Could not instantiate source generator. Types in module:\n\n" ++ "\n".intercalate types
  | generator errors => "Error(s) running generator:\n\n" ++ lines errors
  | execution e => executionText e
  | cancelled => "Run was cancelled."

/-- The kind of a failure in one word. -/
def kind : StageError → String
  | inputMissing _ => "input-missing"
  | references _ => "infrastructure"
  | compile .. => "compile-diagnostics"
  | emit .. => "emit-failure"
  | instantiation _ => "plugin-instantiation"
  | generator _ => "generator-diagnostics"
  | execution (.exception ..) => "execution-runtime"
  | execution _ => "execution-shape"
  | cancelled => "cancelled"

def ofReferenceError : ReferenceError → StageError
  | .cancelled => cancelled
  | e => references e

def ofExecutionError : ExecutionError → StageError
  | .cancelled => cancelled
  | e => execution e

end StageError

end GenLang
