import GenLang.Cancellation
import GenLang.Lowering
import GenLang.Image.Encoding

/-!
# Compilations

A compilation binds source units against libraries that are compiled already. Making one never
fails on bad sources: what is wrong with them is in its diagnostics, and the types and the model
hold what could be made sense of. Only a compilation without errors is emitted.
-/

namespace GenLang

/-- What generators may ask about a program. -/
structure SemanticModel where
  symbols : SymbolTable
  /-- Calls in the order of the text. -/
  invocations : List Invocation
  sourceFiles : List SourceUnit
deriving Inhabited

namespace SemanticModel

/-- Types that the program declares, in order. -/
def types (m : SemanticModel) : List TypeSymbol :=
  m.symbols.localTypes

/-- Types of the program that have a capability and of which there can be objects. -/
def implementations (m : SemanticModel) (capability : String) : List TypeSymbol :=
  m.types.filter fun t =>
    !t.isCapability && !t.isAbstract && !t.isStatic && m.symbols.implements t.name capability

end SemanticModel

/-- Why a compilation is not emitted. -/
inductive EmitError where
  | hasErrors (count : Nat)
deriving DecidableEq, Repr, Inhabited

def EmitError.message : EmitError → String
  | hasErrors count => "compilation has " ++ toString count ++ " error(s)"

/-- Source units bound against libraries. -/
structure Compilation where
  name : String
  options : CompileOptions
  references : List Image
  units : List SourceUnit
  diagnostics : List Diagnostic
  types : List TypeDef
  model : SemanticModel
deriving Inhabited

namespace Compilation

/-- Declarations of all units in order, and their syntax errors. -/
def parseUnits (sources : Sources) (units : List SourceUnit) :
    List Declaration × List Diagnostic :=
  let parsed := units.map fun u => (u, Parsed.ofSource u.text)
  (parsed.flatMap fun (u, p) => p.types.map fun t => ⟨u.name, t⟩,
   parsed.flatMap fun (u, p) =>
    -- Places are those in the last unit of the name, as for all diagnostics.
    p.errors.map fun e => e.toDiagnostic u.name ((sources.text? u.name).getD u.text))

/-- Diagnostics come in the order of the stages: syntax, names that are taken, declarations,
bodies, entry point. -/
def ofUnits (name : String) (units : List SourceUnit) (references : List Image)
    (options : CompileOptions) : Compilation :=
  let sources : Sources := ⟨units⟩
  let (declarations, syntaxErrors) := parseUnits sources units
  let (table, accepted, taken) :=
    Declaration.enter sources (Declaration.libraryTable references) declarations
  let (types, notes) := Lowering.types sources table accepted
  { name, options, references, units, types
    diagnostics :=
      syntaxErrors ++ taken ++ Declaration.check sources table options accepted ++
        notes.diagnostics ++
        (if options.kind == .executable then Declaration.checkEntryPoint table else [])
    model := ⟨table, notes.invocations, units⟩ }

/-- As `ofUnits`, unless it is cancelled. That is asked before each unit is read, and once they are
bound, before each of the types is lowered. -/
def create (name : String) (units : List SourceUnit) (references : List Image)
    (options : CompileOptions) (patience : Patience) :
    Except Cancelled (Compilation × Patience) := do
  let patience ← patience.checks units.length
  let c := ofUnits name units references options
  let patience ← patience.checks c.types.length
  return (c, patience)

/-- The same program with more units. -/
def withUnits (c : Compilation) (extra : List SourceUnit) (options : CompileOptions)
    (patience : Patience) : Except Cancelled (Compilation × Patience) :=
  create c.name (c.units ++ extra) c.references options patience

def errors (c : Compilation) : List Diagnostic :=
  c.diagnostics.filter (·.isError)

def hasErrors (c : Compilation) : Bool :=
  !c.errors.isEmpty

/-- The module, whether or not there are errors. -/
def image (c : Compilation) : Image where
  version := Image.currentVersion
  name := c.name
  kind := c.options.kind
  references := c.references.map (·.name)
  types := c.types

/-- The bytes of the module. -/
def emit (c : Compilation) : Except EmitError (List UInt8) :=
  if c.errors.isEmpty then .ok c.image.encode
  else .error (.hasErrors c.errors.length)

end Compilation

end GenLang
