import GenLang.Text.Case.Table
import GenLang.Text.Range

/-!
# Upper and lower case

A text is mapped character by character; one character may become several. Only the capital sigma
looks around: at the end of a word it becomes the final small sigma.
-/

namespace GenLang.Text

/-- The character that rows map a character to; itself if none does. -/
def mapCase (rows : List CaseRow) (c : Char) : Char :=
  match rows.findSome? (·.map? c.toNat) with
  | some n => Char.ofNat n
  | none => c

def upperChars (c : Char) : List Char :=
  match upperSequences.lookup c.toNat with
  | some cs => cs.map Char.ofNat
  | none => [mapCase upperRows c]

def upper (s : String) : String :=
  String.ofList (s.toList.flatMap upperChars)

/-- Whether the next character that counts is a cased one. -/
def casedNext (cs : List Char) : Bool :=
  ((cs.dropWhile (inRanges caseIgnorableRanges)).head?.map (inRanges casedRanges)).getD false

def capitalSigma : Char := Char.ofNat 0x3A3

/-- Lower case behind some characters, the nearest first. -/
def lowerAfter : List Char → List Char → List Char
  | _, [] => []
  | before, c :: cs =>
    (if c = capitalSigma then
      [Char.ofNat (if casedNext before && !casedNext cs then 0x3C2 else 0x3C3)]
     -- The dotted capital I is the only one that becomes two characters.
     else if c.toNat = 0x130 then [Char.ofNat 0x69, Char.ofNat 0x307]
     else [mapCase lowerRows c]) ++ lowerAfter (c :: before) cs

def lower (s : String) : String :=
  String.ofList (lowerAfter [] s.toList)

end GenLang.Text
