import GenLang.Generator
import GenLang.Syntax.Printer

/-!
# Transforming programs

Every generator looks at the program as it was written, never at what others have generated. The
generated units, sorted by name, are compiled together with the program unless a generator reported
an error.
-/

namespace GenLang

/-- What generators make of a program. -/
structure Transformation where
  generated : List SourceUnit
  diagnostics : List Diagnostic
  /-- The program with the generated units. -/
  augmented : Option Compilation
deriving Inhabited

namespace Transformation

def errors (t : Transformation) : List Diagnostic :=
  t.diagnostics.filter (·.isError)

def hasErrors (t : Transformation) : Bool :=
  t.diagnostics.any (·.isError)

/-- Units by name; those of one name keep their order. -/
def sortUnits (units : List SourceUnit) : List SourceUnit :=
  units.mergeSort fun a b => !(b.name < a.name)

/-- Deliveries of generators in order, up to one that is cancelled; and the lines logged. -/
def executeAll (model : SemanticModel) (parallel : Bool) : List Generator → Cancellation →
    Except Cancelled (List GeneratorOutput × Patience) × List String
  | [], cancellation => (.ok ([], cancellation.patience), [])
  | g :: gs, cancellation =>
    match g.execute model (cancellation.next parallel) with
    | (.error e, log) => (.error e, log)
    | (.ok (output, left), log) =>
      let (outputs, rest) := executeAll model parallel gs (cancellation.after parallel left)
      (outputs.map fun (outputs, patience) => (output :: outputs, patience), log ++ rest)

/-- Puts deliveries together and compiles the program with them. -/
def ofOutputs (program : Compilation) (outputs : List GeneratorOutput) (patience : Patience) :
    Except Cancelled (Transformation × Patience) := do
  let generated := sortUnits (outputs.flatMap (·.sources))
  let diagnostics := outputs.flatMap (·.diagnostics)
  if diagnostics.any (·.isError) then return (⟨generated, diagnostics, none⟩, patience)
  let (augmented, patience) ← program.withUnits generated .executable patience
  return (⟨generated, diagnostics, some augmented⟩, patience)

/-- Runs generators on a program; the lines logged come with the result. Several generators may run
beside each other. -/
def run (parallel : Bool) (program : Compilation) (generators : List Generator)
    (cancellation : Cancellation) : Except Cancelled (Transformation × Patience) × List String :=
  let (outputs, log) :=
    executeAll program.model (parallel && generators.length > 1) generators cancellation
  (outputs.bind fun (outputs, patience) => ofOutputs program outputs patience, log)

/-! ## Listing -/

/-- Stands for the listing of no units. -/
def noSource : String :=
  "< No source generated >"

/-- The text of a unit in a listing: formatted if it can be read, without blanks at its end. -/
def listedText (u : SourceUnit) : String :=
  Text.trimEnd ((format? u.text).getD u.text)

/-- A unit under a heading. -/
def headed (u : SourceUnit) : String :=
  u.name ++ "\n" ++ String.ofList (List.replicate 50 '-') ++ "\n" ++ listedText u

/-- Units one after the other; of several each has a heading. -/
def listing (units : List SourceUnit) : String :=
  match units with
  | [] => noSource
  | [u] => listedText u
  | units => "\n\n".intercalate (units.map headed)

def report (t : Transformation) : String :=
  listing t.generated

end Transformation

end GenLang
