import GenLang.Interpreter
import GenLang.Reference

/-!
# Executing programs

A program starts at the static method `Main` of its type `Program`. What it prints is its result;
when it ends by an exception, what it printed until then is kept.
-/

namespace GenLang

/-- The method at which a program starts. -/
structure EntryPoint where
  cls : ClassId
  takesArgument : Bool
  awaitable : Bool
deriving DecidableEq, Repr, Inhabited

/-- Why a program is not run to its end. -/
inductive ExecutionError where
  | load (error : LoadError)
  | programNotFound
  | mainNotFound
  | mainArity
  | mainReturnShape
  | exception (output : String) (info : ExceptionInfo)
  | cancelled
  | outOfFuel
deriving DecidableEq, Repr, Inhabited

namespace ExecutionError

def message : ExecutionError → String
  | load e => e.message
  | programNotFound => "Could not find type \"Program\" in program."
  | mainNotFound => "Could not find static method \"Main\" in program."
  | mainArity => "Method \"Main\" must have 0 or 1 parameters."
  | mainReturnShape => "Method \"Main\" must have void or awaitable return type."
  | exception _ info => info.description
  | cancelled => "execution was cancelled"
  | outOfFuel => "execution ran out of fuel"

/-- What was printed before an exception, if anything was. -/
def partialOutput? : ExecutionError → Option String
  | exception output _ => if output.isEmpty then none else some output
  | _ => none

end ExecutionError

namespace EntryPoint

/-- The first static method `Main` of the type `Program`, if its shape is right. -/
def find (h : Hierarchy) : Except ExecutionError EntryPoint := do
  match h.findClass? "Program" with
  | none => throw .programNotFound
  | some cls =>
    match (h.typeDef cls).methods.find? fun m => m.name == "Main" && m.isStatic with
    | none => throw .mainNotFound
    | some m =>
      if 1 < m.params.length then throw .mainArity
      match m.shape with
      | .value => throw .mainReturnShape
      | .void => return ⟨cls, m.params.length == 1, false⟩
      | .awaitable => return ⟨cls, m.params.length == 1, true⟩

end EntryPoint

/-- Stands for the output of a program that prints nothing. -/
def noOutput : String :=
  "< No program output >"

/-- Runs a loaded program from its entry point: the output, and how the run ends. -/
def EntryPoint.run (e : EntryPoint) (h : Hierarchy) (limits : Limits) :
    Except RuntimeError Unit × String :=
  let env : Environment := { hierarchy := h, maxCallDepth := limits.maxCallDepth }
  let args := if e.takesArgument then [Value.null] else []
  let (result, m) :=
    Machine.run {} env ((Evaluator.ofFuel limits.fuel).callStatic e.cls "Main" args)
  (result.map fun _ => (), m.console.written)

/-- Loads and runs a module: what it prints. -/
def execute (bytes : List UInt8) (libraries : References) (limits : Limits) :
    Except ExecutionError String := do
  let h ← (Hierarchy.loadBytes bytes libraries).mapError .load
  let entry ← EntryPoint.find h
  match entry.run h limits with
  | (.ok (), output) => return if output.isEmpty then noOutput else output
  | (.error (.exception info), output) => throw (.exception output info)
  | (.error .cancelled, _) => throw .cancelled
  | (.error .outOfFuel, _) => throw .outOfFuel

end GenLang
