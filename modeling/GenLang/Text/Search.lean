/-!
# Searching texts

A pattern is looked for from the left, and where several matches overlap the first of them counts.
-/

namespace GenLang.Text

/-- The first place at which a pattern matches, counted in characters. -/
def indexOf? (pattern : List Char) : List Char → Option Nat
  | [] => if pattern.isEmpty then some 0 else none
  | c :: cs =>
    if pattern.isPrefixOf (c :: cs) then some 0 else (indexOf? pattern cs).map (· + 1)

/-- Whether a pattern matches anywhere. -/
def hasInfix (pattern : List Char) : List Char → Bool
  | [] => pattern.isEmpty
  | c :: cs => pattern.isPrefixOf (c :: cs) || hasInfix pattern cs

/-- Puts a character in front of the first part. -/
def consFirst (c : Char) : List (List Char) → List (List Char)
  | [] => [[c]]
  | part :: parts => (c :: part) :: parts

/-- The parts between the matches of a pattern that is not empty, after `skip` characters of a
match. -/
def splitAfter (pattern : List Char) : Nat → List Char → List (List Char)
  | _, [] => [[]]
  | skip + 1, _ :: cs => splitAfter pattern skip cs
  | 0, c :: cs =>
    if pattern.isPrefixOf (c :: cs) then [] :: splitAfter pattern (pattern.length - 1) cs
    else consFirst c (splitAfter pattern 0 cs)

/-- The parts between the matches of a pattern; the whole if the pattern is empty. -/
def split (pattern s : String) : List String :=
  if pattern.isEmpty then [s]
  else (splitAfter pattern.toList 0 s.toList).map String.ofList

/-- The text with its matches replaced, after `skip` characters of a match. -/
def replaceAfter (pattern new : List Char) : Nat → List Char → List Char
  | _, [] => []
  | skip + 1, _ :: cs => replaceAfter pattern new skip cs
  | 0, c :: cs =>
    if pattern.isPrefixOf (c :: cs) then
      new ++ replaceAfter pattern new (pattern.length - 1) cs
    else c :: replaceAfter pattern new 0 cs

/-- Replaces the matches of a pattern that is not empty. -/
def replace (pattern new s : String) : String :=
  String.ofList (replaceAfter pattern.toList new.toList 0 s.toList)

/-- The characters from `start`, to the end or `length` many, if all of them are there. -/
def substring? (s : List Char) (start : Nat) (length : Option Nat) : Option (List Char) :=
  if s.length < start then none
  else
    match length with
    | none => some (s.drop start)
    | some n => if start + n ≤ s.length then some ((s.drop start).take n) else none

end GenLang.Text
