import GenLang.Decimal.Integer

/-!
# Command-line arguments

A grammar says which switches a command has, which of them take a value, and what stands without a
switch. Arguments are taken from left to right. The values of a switch or position are looked at
when the next argument is understood or the arguments end, so an unknown argument behind a bad value
is what is complained about.
-/

namespace GenLang.Command

/-- Why a command is not carried out as its arguments stand. -/
inductive Refusal where
  /-- An argument that nothing is known about. -/
  | unknown
  /-- A value that is missing, empty, or none of those there are. -/
  | invalidValue
  | malformedNumber
  /-- A value for a switch that takes none. -/
  | unexpectedValue
  /-- Something twice, or together with what excludes it. -/
  | conflict
  | missing
  | helpAsked
  | versionAsked
deriving DecidableEq, Repr, Inhabited

/-- What a value has to be. -/
inductive ValueKind where
  /-- Any text but the empty one. -/
  | path
  | text
  /-- A number of 64 bits. -/
  | word
  | oneOf (names : List String)
deriving DecidableEq, Repr, Inhabited

/-- Digits, with a plus in front or not, whose number fits in 64 bits. -/
def readWord? (s : String) : Option Nat := do
  let n ← Decimal.readDigits? (match s.toList with
    | '+' :: ds => ds
    | ds => ds)
  if n < UInt64.size then some n else none

/-- Refuses a value that is not as it has to be. -/
def ValueKind.check (kind : ValueKind) (value : String) : Except Refusal Unit :=
  match kind with
  | path => if value.isEmpty then .error .invalidValue else .ok ()
  | text => .ok ()
  | word => if (readWord? value).isSome then .ok () else .error .malformedNumber
  | oneOf names => if names.contains value then .ok () else .error .invalidValue

/-- Something that takes values, one or many. -/
structure Slot where
  name : String
  kind : ValueKind
  many : Bool := false
deriving DecidableEq, Repr, Inhabited

/-- What a switch does. -/
inductive Effect where
  | set
  | take (kind : ValueKind)
  | askHelp
  | askVersion
deriving DecidableEq, Repr, Inhabited

/-- An argument with a name: `--name`, or `-n` if it has a short form. -/
structure Switch where
  name : String
  short : Option Char := none
  effect : Effect := .set
deriving DecidableEq, Repr, Inhabited

/-- What arguments a command takes. Only the last position may take many values. -/
structure Grammar where
  switches : List Switch
  positions : List Slot
deriving DecidableEq, Repr, Inhabited

/-! ## Values that were taken -/

/-- Names with their values, in the order in which they were taken; a switch that is merely set has
no value. -/
abbrev Values := List (String × List String)

namespace Values

def has (v : Values) (name : String) : Bool :=
  v.any (·.1 == name)

/-- All values under a name. -/
def all (v : Values) (name : String) : List String :=
  (v.filter (·.1 == name)).flatMap (·.2)

def first? (v : Values) (name : String) : Option String :=
  (v.all name).head?

def number? (v : Values) (name : String) : Option Nat :=
  (v.first? name).bind readWord?

/-- Takes the values of a slot. -/
def accept (v : Values) (slot : Slot) (values : List String) : Except Refusal Values := do
  if values.isEmpty then throw .invalidValue
  if !slot.many && v.has slot.name then throw .conflict
  values.forM slot.kind.check
  return v ++ [(slot.name, values)]

end Values

/-! ## Taking arguments -/

/-- The state between two arguments. -/
structure Progress where
  taken : Values := []
  /-- A slot and its values, which are not looked at yet. -/
  pending : Option (Slot × List String) := none
  /-- Whether the pending slot is that of a switch that has no value yet. -/
  waiting : Bool := false
  /-- How many positions are behind. -/
  filled : Nat := 0
  /-- Whether everything is a position from here on. -/
  onlyPositions : Bool := false
deriving DecidableEq, Repr, Inhabited

namespace Progress

/-- Looks at what is pending. -/
def settle (p : Progress) : Except Refusal Progress :=
  match p.pending with
  | none => .ok p
  | some (slot, values) => do
    return { p with taken := ← p.taken.accept slot values, pending := none, waiting := false }

/-- A switch without a value. -/
def turnOn (p : Progress) (s : Switch) : Except Refusal Progress := do
  let p ← p.settle
  match s.effect with
  | .askHelp => throw .helpAsked
  | .askVersion => throw .versionAsked
  | _ =>
    if p.taken.has s.name then throw .conflict
    return { p with taken := p.taken ++ [(s.name, [])] }

/-- A slot whose value stands in the same argument, or will stand in the next. -/
def expect (p : Progress) (slot : Slot) (attached : Option String) : Except Refusal Progress := do
  let p ← p.settle
  match attached with
  | some value => return { p with taken := ← p.taken.accept slot [value] }
  | none => return { p with pending := some (slot, []), waiting := true }

/-- A switch by its name, with or without a value attached. -/
def long (g : Grammar) (p : Progress) (name : String) (attached : Option String) :
    Except Refusal Progress :=
  match g.switches.find? (·.name == name) with
  | none => throw .unknown
  | some s =>
    match s.effect, attached with
    | .take kind, attached => p.expect ⟨s.name, kind, false⟩ attached
    | _, some _ => throw .unexpectedValue
    | _, none => p.turnOn s

/-- Switches by their short forms. What is behind one that takes a value is its value, with an
equals sign in front or not. -/
def shorts (g : Grammar) (p : Progress) : List Char → Except Refusal Progress
  | [] => .ok p
  | c :: cs =>
    match g.switches.find? (·.short == some c) with
    | none => throw .unknown
    | some s =>
      match s.effect with
      | .take kind =>
        p.expect ⟨s.name, kind, false⟩
          (match cs with
           | [] => none
           | '=' :: value => some (String.ofList value)
           | value => some (String.ofList value))
      | _ => do
        let p ← p.turnOn s
        shorts g p cs

/-- An argument for a position. -/
def position (g : Grammar) (p : Progress) (arg : String) : Except Refusal Progress :=
  match g.positions[p.filled]? with
  | none => throw .unknown
  | some slot =>
    match p.pending with
    | some (s, values) =>
      if slot.many && s == slot then .ok { p with pending := some (s, values ++ [arg]) }
      else start slot
    | none => start slot
where
  start (slot : Slot) : Except Refusal Progress := do
    let p ← p.settle
    return { p with
      pending := some (slot, [arg])
      filled := if slot.many then p.filled else p.filled + 1 }

/-- An argument that is no switch: the value that is waited for, or a position. -/
def plain (g : Grammar) (p : Progress) (arg : String) : Except Refusal Progress :=
  match p.pending with
  | some (slot, values) =>
    if p.waiting then .ok { p with pending := some (slot, values ++ [arg]), waiting := false }
    else p.position g arg
  | none => p.position g arg

/-- Takes one argument. -/
def step (g : Grammar) (p : Progress) (arg : String) : Except Refusal Progress :=
  if p.onlyPositions then p.position g arg
  else
    match arg.toList with
    | ['-', '-'] => .ok { p with onlyPositions := true }
    | '-' :: '-' :: cs =>
      p.long g (String.ofList (cs.takeWhile (· != '=')))
        (match cs.dropWhile (· != '=') with
         | _ :: value => some (String.ofList value)
         | [] => none)
    | '-' :: c :: cs => p.shorts g (c :: cs)
    | _ => p.plain g arg

end Progress

/-- Takes all arguments of a command. -/
def Grammar.read (g : Grammar) (args : List String) : Except Refusal Values := do
  let p ← args.foldlM (Progress.step g) {}
  let p ← p.settle
  return p.taken

end GenLang.Command
