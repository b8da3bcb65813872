import GenLang.Machine.Builtin

/-!
# The host of a generator

Members of the context that a generator is given, and of the views through which it looks at the
program. Views are read only; what the generator delivers goes through its context.
-/

namespace GenLang

open Text

namespace Evaluator

def newStrings (texts : List String) : Run Value :=
  Run.newList (texts.map Value.str).toArray

/-- A property of a host object. -/
def hostMember (object : HostObject) (name : String) : Run Value := do
  match object, name with
  | .context, "Compilation" => Run.newHost .compilation
  | .type t, "Name" => return .str t.name
  | .type t, "IsAbstract" => return .bool t.isAbstract
  | .type t, "IsCapability" => return .bool t.isCapability
  | .type t, "IsStatic" => return .bool t.isStatic
  | .type t, "Library" => return .ofOption t.library
  | .type t, "Bases" => newStrings t.bases
  | .type t, "Methods" => Run.newViews (t.methods.map .method)
  | .type t, "Fields" => newStrings (t.fields.map (·.name))
  | .type t, "ConstructorParameters" =>
    match (← read).model.symbols.constructor? t.name with
    | some m => Run.newViews (m.params.map .param)
    | none => Run.newList #[]
  | .method m, "Name" => return .str m.name
  | .method m, "IsStatic" => return .bool m.isStatic
  | .method m, "IsAsync" => return .bool m.isAsync
  | .method m, "Parameters" => Run.newViews (m.params.map .param)
  | .method m, "ReturnType" => return .ofOption m.returns
  | .param p, "Name" => return .str p.name
  | .param p, "Type" => return .ofOption p.typeName
  | .param p, "HasDefault" => return .bool p.hasDefault
  | .invocation i, "Type" => return .ofOption i.typeName
  | .invocation i, "Method" => return .str i.method
  | .invocation i, "Arguments" =>
    Run.newList (i.arguments.map fun a => Value.ofLiteral (a.getD .null)).toArray
  | .invocation i, "Caller" => return .str i.caller
  | .invocation i, "File" => return .str i.file
  | .invocation i, "Line" => return .int (Int64.ofNat i.line)
  | .sourceFile u, "Name" => return .str u.name
  | .sourceFile u, "Text" => return .str u.text
  | object, name => Run.raise (.missingMember object.typeName name)

end Evaluator

namespace NativeCode

/-- The file of a generated source: its name, with `.gen` if it has no extension. -/
def generatedFile (generator hint : String) : String :=
  generator ++ "/" ++ (if hint.toList.contains '.' then hint else hint ++ ".gen")

/-- Adds a source under a name that the generator has not used yet. -/
def addSource (args : List Value) : NativeCode Value := do
  expectArgs "AddSource" args 2 2
  let hint ← text (argAt args 0)
  if allBlank hint then fail .emptyHint
  -- Asking for the text may run code of the program, which may use up the name.
  let source ← text (argAt args 1)
  if (← outside).hints.contains hint then fail (.repeatedHint hint)
  let file := generatedFile (← environment).generator hint
  modify fun o =>
    { o with
      hints := hint :: o.hints
      output := { o.output with sources := o.output.sources ++ [⟨file, source⟩] } }
  return .null

def reportDiagnostic (args : List Value) : NativeCode Value := do
  expectArgs "ReportDiagnostic" args 3 3
  let word ← text (argAt args 0)
  match Severity.ofName? word with
  | none => fail (.unknownSeverity (Severity.unknownMessage word))
  | some severity =>
    let code ← text (argAt args 1)
    let message ← text (argAt args 2)
    modify fun o =>
      { o with
        output :=
          { o.output with
            diagnostics := o.output.diagnostics ++ [{ severity, code, message }] } }
    return .null

/-- A method of a host object. -/
def hostMethod (object : HostObject) (name : String) (args : List Value) :
    NativeCode Value := do
  let model := (← environment).model
  match object, name with
  | .context, "AddSource" => addSource args
  | .context, "ReportDiagnostic" => reportDiagnostic args
  | .context, "IsCancellationRequested" =>
    expectArgs name args 0 0
    return .bool (← pollCancelled)
  | .compilation, "Types" =>
    expectArgs name args 0 0
    place (·.newViews (model.types.map .type))
  | .compilation, "GetType" =>
    expectArgs name args 1 1
    let wanted ← text (argAt args 0)
    match model.symbols.find? wanted with
    | some t => place (·.newHost (.type t))
    | none => return .null
  | .compilation, "Implementations" =>
    expectArgs name args 1 1
    let capability ← text (argAt args 0)
    place (·.newViews ((model.implementations capability).map .type))
  | .compilation, "Invocations" =>
    expectArgs name args 0 0
    place (·.newViews (model.invocations.map .invocation))
  | .compilation, "SourceFiles" =>
    expectArgs name args 0 0
    place (·.newViews (model.sourceFiles.map .sourceFile))
  | .type t, "ToString" =>
    if args.isEmpty then return .str t.name else fail (.missingMember object.typeName name)
  | object, name => fail (.missingMember object.typeName name)

end NativeCode

end GenLang
