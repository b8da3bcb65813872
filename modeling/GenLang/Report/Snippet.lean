import GenLang.Diagnostic
import GenLang.Report.Color
import GenLang.Text.Blank
import GenLang.Text.Line
import GenLang.Text.Width

/-!
# Snippets

A diagnostic drawn at the line of the source it is about: a heading, the line with the character in
color, and below it a mark that points at the character.
-/

namespace GenLang

open Text

namespace Snippet

/-- The frame and the number of the line. -/
def frame (text : String) : String :=
  (Color.indexed 246).paint text

/-- The rule to the left of the mark. -/
def faint (text : String) : String :=
  (Color.indexed 240).paint text

def blanks (n : Nat) : String :=
  String.ofList (List.replicate n ' ')

/-- Tabs end at multiples of this. -/
def tabWidth : Nat := 4

/-! ## The line -/

/-- Columns of the character at an index of a line. -/
def columns (index : Nat) (c : Char) : Nat :=
  if c = '\t' then tabWidth - index % tabWidth
  else if isBlank c then 1
  else width c

/-- Columns at an index of a line; behind the line every index has one. -/
def columnsAt (chars : List Char) (index : Nat) : Nat :=
  match chars[index]? with
  | some c => columns index c
  | none => 1

/-- A character in some color. Blank characters are drawn as blanks. -/
def drawChar (color : Color) (index : Nat) (c : Char) : String :=
  if isBlank c then String.join (List.replicate (columns index c) (color.paint " "))
  else color.paint (String.singleton c)

/-- A line with one character in the label's color. -/
def drawLine (label : Color) (marked : Nat) (line : List Char) : String :=
  String.join ((line.zipIdx).map fun (c, i) =>
    drawChar (if i = marked then label else .indexed 249) i c)

/-! ## The mark -/

/-- A mark over some columns: `first` in the first of them, `other` in those behind it. -/
def stroke (columns : Nat) (first other : String) : String :=
  match columns with
  | 0 => ""
  | n + 1 => first ++ String.join (List.replicate n other)

/-- The mark in two lines, which points at `marked` columns and goes on for some more. At the end of
a text there is no character to mark. -/
def mark (label : Color) (atEnd : Bool) (marked more : Nat) : String × String :=
  let bar := label.paint "─"
  (stroke marked (label.paint (if atEnd then "│" else "┬")) bar ++ blanks more,
   stroke marked (label.paint "╰") bar ++ String.join (List.replicate more bar))

/-! ## The whole -/

def severityLabel : Severity → String × Color
  | .error => ("Error", .red)
  | .warning => ("Warning", .yellow)
  | .info => ("Advice", .indexed 147)

/-- The code, the severity and the message. -/
def heading (d : Diagnostic) : String :=
  let (name, color) := severityLabel d.severity
  color.paint ("[" ++ d.code ++ "] " ++ name ++ ":") ++ " " ++ d.message

/-- A diagnostic drawn at a place of a file. -/
def draw (d : Diagnostic) (file : String) (place : LinePlace) (label : Color) : String :=
  let number := toString (place.row + 1)
  let margin := blanks (number.length + 2)
  let rule := " " ++ faint (blanks number.length ++ " │") ++ " "
  let line := trimRight isBlank place.line
  let k := place.index
  let pad := String.join ((List.range k).map fun i => blanks (columnsAt line i))
  let atEnd := k = place.line.length
  let more := columnsAt line (k + 1) + if atEnd then 0 else columnsAt line (k + 2)
  let (upper, lower) := mark label atEnd (columnsAt line k) more
  "\n".intercalate
    [heading d,
     margin ++ frame "╭" ++ frame "─" ++ frame "[" ++ " " ++ file ++ ":" ++ number ++ ":" ++
       toString (k + 1) ++ " " ++ frame "]",
     margin ++ frame "│",
     " " ++ frame (number ++ " │") ++ " " ++ drawLine label k line,
     rule ++ pad ++ upper,
     rule ++ pad ++ lower ++ " " ++ d.severity.name,
     frame (String.ofList (List.replicate (number.length + 2) '─') ++ "╯"),
     ""]

end Snippet

end GenLang
