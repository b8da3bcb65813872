import GenLang.Image.Pack

/-!
# Records and variants in MessagePack

A record is a map from the names of its fields to their values, or an array of the values in order.
A variant without data is its name; one with data is a map with a single entry, from the name to the
payload. Readers accept a number for a name, counting fields and variants from 0.
-/

namespace GenLang

namespace Pack

/-! ## Writing -/

def record (fields : List (String × Pack)) : Pack :=
  map (fields.map fun (k, v) => (str k, v))

def tagged (name : String) (payload : Pack) : Pack :=
  map [(str name, payload)]

def ofNat (n : Nat) : Pack :=
  int n

def ofOption {α : Type} (f : α → Pack) : Option α → Pack
  | some a => f a
  | none => nil

def ofList {α : Type} (f : α → Pack) (items : List α) : Pack :=
  array (items.map f)

/-! ## Reading -/

/-- Which of the names a value means, by its position: text, bytes of text, or a number. -/
def nameIndex? (names : List String) : Pack → Option Nat
  | str s => names.findIdx? (· == s)
  | bin b => names.findIdx? (utf8 · == b)
  | int n => if 0 ≤ n ∧ n < names.length then some n.toNat else none
  | _ => none

/-- Whether a value can stand for the name of a field at all. -/
def isName : Pack → Bool
  | str _ | bin _ => true
  | int n => 0 ≤ n
  | _ => false

/-- The value of the field at a position; `none` for the whole if it is given twice. -/
def entry? (names : List String) (index : Nat) (entries : List (Pack × Pack)) :
    Option (Option Pack) :=
  match entries.filter fun (k, _) => nameIndex? names k == some index with
  | [] => some none
  | [(_, v)] => some (some v)
  | _ => none

/-- The values of the fields of a record, in order. A map may lack some and hold others besides. -/
def fields? (names : List String) : Pack → Option (List (Option Pack))
  | array items => if items.length = names.length then some (items.map some) else none
  | map entries =>
    if entries.all fun (k, _) => isName k then
      (List.range names.length).mapM fun i => entry? names i entries
    else none
  | _ => none

/-- A field that has to be there. -/
def required {α : Type} (f : Pack → Option α) : Option Pack → Option α
  | some p => f p
  | none => none

/-- A value that may be missing or nil. -/
def optional {α : Type} (f : Pack → Option α) : Option Pack → Option (Option α)
  | none => some none
  | some nil => some none
  | some p => (f p).map some

/-- The position of a variant's name, and its payload if it has one. -/
def variant? (names : List String) : Pack → Option (Nat × Option Pack)
  | map [(k, v)] => (nameIndex? names k).map (·, some v)
  | map _ => none
  | p => (nameIndex? names p).map (·, none)

/-- A variant that carries nothing. -/
def bare? (names : List String) (p : Pack) : Option Nat :=
  match variant? names p with
  | some (i, none) => some i
  | some (i, some nil) => some i
  | _ => none

def toBool? : Pack → Option Bool
  | bool b => some b
  | _ => none

/-- A number of 32 bits without sign. -/
def toNat32? : Pack → Option Nat
  | int n => if 0 ≤ n ∧ n < UInt32.size then some n.toNat else none
  | _ => none

def toInt64? : Pack → Option Int64
  | int n =>
    if Int64.minValue.toInt ≤ n ∧ n ≤ Int64.maxValue.toInt then some (Int64.ofInt n) else none
  | _ => none

/-- A float; an integer stands for the nearest one. -/
def toFloat? : Pack → Option Float
  | float x => some x
  | int n => some (Float.ofInt n)
  | _ => none

def toString? : Pack → Option String
  | str s => some s
  | bin b => String.fromUTF8? ⟨b.toArray⟩
  | _ => none

def toList? {α : Type} (f : Pack → Option α) : Pack → Option (List α)
  | array items => items.mapM f
  | _ => none

end Pack

end GenLang
