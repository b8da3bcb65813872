import GenLang.Compilation
import GenLang.Json
import GenLang.Report.Snippet

/-!
# Reports

Diagnostics for people to read, each with a snippet of its source if that is known, and a summary of
how many there are; and the same as JSON for programs.
-/

namespace GenLang

open Text

/-- How many diagnostics of the graver kinds there are. -/
structure Counts where
  errors : Nat
  warnings : Nat
deriving DecidableEq, Repr, Inhabited

namespace Counts

def ofDiagnostics (diagnostics : List Diagnostic) : Counts where
  errors := diagnostics.countP (·.severity == .error)
  warnings := diagnostics.countP (·.severity == .warning)

/-- A number and what is counted. -/
def phrase (n : Nat) (singular : String) : String :=
  toString n ++ " " ++ singular ++ if n = 1 then "" else "s"

/-- One line that says how many errors and warnings there are. -/
def summary (c : Counts) : String :=
  (match c.errors, c.warnings with
   | 0, 0 => Color.green.paint "✓" ++ " No errors found"
   | 0, w => Color.yellow.paint "⚠" ++ " " ++ phrase w "warning"
   | e, 0 => Color.red.paint "✗" ++ " " ++ phrase e "error"
   | e, w => Color.red.paint "✗" ++ " " ++ phrase e "error" ++ ", " ++ phrase w "warning") ++ "\n"

end Counts

namespace Report

/-- The place of a location in a text. -/
def placeOf? (text : String) (l : Location) : Option LinePlace :=
  (Position.toByte? text l.position).map (.ofByte 0 (splitLines text.toList))

/-- The text of a diagnostic's file and where in it the diagnostic is. -/
def snippet? (sources : Sources) (d : Diagnostic) : Option (String × LinePlace) := do
  let l ← d.location
  let text ← sources.text? l.file
  return (l.file, ← placeOf? text l)

/-- Draws diagnostics one after the other. Only those with a snippet take a color. -/
def draw (sources : Sources) (palette : Palette) : List Diagnostic → String
  | [] => ""
  | d :: ds =>
    match snippet? sources d with
    | none => d.render ++ "\n" ++ draw sources palette ds
    | some (file, place) =>
      let (color, palette) := palette.next
      Snippet.draw d file place color ++ draw sources palette ds

/-- The report on some diagnostics. -/
def ofDiagnostics (sources : Sources) (diagnostics : List Diagnostic) : String :=
  draw sources {} diagnostics

end Report

/-! ## As JSON -/

def Severity.title : Severity → String
  | error => "Error"
  | warning => "Warning"
  | info => "Info"

def Diagnostic.json (d : Diagnostic) : Json :=
  .obj [("severity", .str d.severity.title), ("code", .str d.code), ("message", .str d.message),
    ("location", .ofOption (fun l => .obj [("file", .str l.file),
      ("line", .nat l.position.line.toNat), ("column", .nat l.position.column.toNat)]) d.location)]

/-- Diagnostics and how many there are. -/
def Report.json (diagnostics : List Diagnostic) : Json :=
  let counts := Counts.ofDiagnostics diagnostics
  .obj [("diagnostics", .arr (diagnostics.map (·.json))), ("error_count", .nat counts.errors),
    ("warning_count", .nat counts.warnings)]

end GenLang
