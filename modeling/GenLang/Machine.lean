import GenLang.Cancellation
import GenLang.Value
import GenLang.Fault

/-!
# The machine

The state of a run: heap, static fields, calls in progress, console and what a generator has
delivered. A run ends with a value or stops: by an exception, because it was cancelled, or because
the fuel of the evaluation is used up. State survives a stop.
-/

namespace GenLang

/-- A call in progress. -/
structure Frame where
  /-- The module whose references the code uses. -/
  module : Nat
  typeName : String
  method : String
  file : String
  line : Nat
  locals : Array Value
  this : Option Value
deriving Inhabited

def Frame.toStackFrame (f : Frame) : StackFrame :=
  ⟨f.typeName, f.method, f.file, f.line⟩

/-- Writes a local; slots in between are `null`. -/
def Frame.setLocal (f : Frame) (slot : Nat) (v : Value) : Frame :=
  if slot < f.locals.size then { f with locals := f.locals.setIfInBounds slot v }
  else { f with locals := (f.locals ++ Array.replicate (slot - f.locals.size) Value.null).push v }

/-- Where printed text goes: kept as it is, or cut into the lines of a log. -/
inductive Console where
  | text (written : String)
  | log (lines : Array String) (rest : String)
deriving Inhabited

namespace Console

/-- A line whose characters are given from its end, without the breaks there. -/
def lineOf (line : List Char) : String :=
  String.ofList (line.dropWhile fun c => c == '\n' || c == '\r').reverse

/-- Cuts off the lines that are complete, behind a line that has begun and is given from its
end. -/
def completeLines : List Char → List Char → List String × List Char
  | line, [] => ([], line.reverse)
  | line, c :: cs =>
    if c = '\n' then
      let (lines, rest) := completeLines [] cs
      (lineOf line :: lines, rest)
    else completeLines (c :: line) cs

def write (c : Console) (s : String) : Console :=
  match c with
  | text written => text (written ++ s)
  | log lines rest =>
    let (complete, rest) := completeLines rest.toList.reverse s.toList
    log (lines ++ complete.toArray) (String.ofList rest)

/-- The lines of a log, the last one even if it is not complete. -/
def lines : Console → List String
  | text _ => []
  | log lines rest => lines.toList ++ (if rest.isEmpty then [] else [rest])

/-- The text kept. -/
def written : Console → String
  | text written => written
  | log _ _ => ""

end Console

/-- What a generator delivers. -/
structure GeneratorOutput where
  sources : List SourceUnit := []
  diagnostics : List Diagnostic := []
deriving Inhabited

/-- The fields of classes whose initialisation has begun. -/
abbrev Statics := List (ClassId × List (String × Value))

namespace Statics

def has (s : Statics) (c : ClassId) : Bool :=
  (s.lookup c).isSome

def get? (s : Statics) (c : ClassId) (name : String) : Option Value :=
  (s.lookup c).bind (·.lookup name)

/-- An entry without fields. -/
def enter (s : Statics) (c : ClassId) : Statics :=
  if s.has c then s else s ++ [(c, [])]

/-- Writes a field of a class that has an entry. -/
def set (s : Statics) (c : ClassId) (name : String) (v : Value) : Statics :=
  s.map fun entry =>
    if entry.1 == c then (c, entry.2.filter (·.1 != name) ++ [(name, v)]) else entry

end Statics

/-- Why a run stops. -/
inductive Stop where
  | thrown (value : Value) (info : ExceptionInfo)
  | cancelled
  | outOfFuel
deriving Inhabited

/-- The state of a run. -/
structure Machine where
  heap : Heap := {}
  statics : Statics := []
  /-- Calls in progress, the innermost first. -/
  frames : List Frame := []
  console : Console := .text ""
  patience : Patience := none
  output : GeneratorOutput := {}
  /-- Names that a generator has given to its sources. -/
  hints : List String := []
  /-- Why code stopped that built-in code waited for, until that is left. -/
  parked : Option Stop := none
deriving Inhabited

namespace Machine

/-- Puts something on the heap. -/
def allocate (m : Machine) (place : Heap → Value × Heap) : Value × Machine :=
  let (v, heap) := place m.heap
  (v, { m with heap })

/-- Asks whether the run is cancelled by now. -/
def poll (m : Machine) : Bool × Machine :=
  let (cancelled, patience) := m.patience.poll
  (cancelled, { m with patience })

theorem poll_never {m : Machine} (h : m.patience = none) : m.poll = (false, m) := by
  cases m
  cases h
  rfl

end Machine

/-- Methods that are not written in the language. -/
inductive Native where
  | writeLine
  | write
  | toText
  | toInt
  | fromResult
deriving DecidableEq, Repr, Inhabited

namespace Native

/-- The native methods of the library `System`, by type and name. -/
def find? : String → String → Option Native
  | "Console", "WriteLine" => some writeLine
  | "Console", "Write" => some write
  | "Convert", "ToString" => some toText
  | "Convert", "ToInt" => some toInt
  | "Tasks", "FromResult" => some fromResult
  | _, _ => none

end Native

/-- What stays the same during a run. -/
structure Environment where
  hierarchy : Hierarchy
  /-- Calls that may be in progress at once. -/
  maxCallDepth : Nat
  natives : String → String → Option Native := Native.find?
  /-- The class of the generator that runs. -/
  generator : String := ""
  /-- The program that the generator looks at. -/
  model : SemanticModel := default
deriving Inhabited

abbrev Run := ReaderT Environment (EStateM Stop Machine)

namespace Run

def hierarchy : Run Hierarchy :=
  return (← read).hierarchy

def heap : Run Heap :=
  return (← get).heap

def modifyHeap (f : Heap → Heap) : Run Unit :=
  modify fun m => { m with heap := f m.heap }

/-- Puts something on the heap. -/
def allocate (place : Heap → Value × Heap) : Run Value :=
  modifyGet (·.allocate place)

def newList (items : Array Value) : Run Value :=
  allocate (·.newList items)

def newObject (o : Instance) : Run Value :=
  allocate (·.newObject o)

def newTask (result : Value) : Run Value :=
  allocate (·.newTask result)

def newHost (object : HostObject) : Run Value :=
  allocate (·.newHost object)

def newViews (objects : List HostObject) : Run Value :=
  allocate (·.newViews objects)

/-- Whether the run is cancelled by now. -/
def pollCancelled : Run Bool :=
  modifyGet Machine.poll

def checkCancelled : Run Unit := do
  if ← pollCancelled then throw .cancelled

/-- Calls in progress, the innermost first. -/
def trace : Run (List StackFrame) :=
  return (← get).frames.map (·.toStackFrame)

/-- The object that a handler gets for a fault. It is an exception that shows the fault's name. -/
def faultValue (f : Fault) : Run Value := do
  match (← hierarchy).exceptionClass? with
  | some c => newObject ⟨c, f.name, [("Message", .str f.message)]⟩
  | none => return .str f.message

/-- The exception that a fault makes at the innermost call. A run that is cancelled is told so by a
fault of that name. -/
def stopOf (f : Fault) : Run Stop := do
  if f.name == Fault.cancelled.name then
    if ← pollCancelled then return .cancelled
  let value ← faultValue f
  return .thrown value ⟨f.name, f.message, ← trace⟩

/-- Throws a fault as an exception. -/
def raise {α : Type} (f : Fault) : Run α := do
  throw (← stopOf f)

/-- A result, or the exception of its fault. -/
def ofExcept {α : Type} : Except Fault α → Run α
  | .ok a => return a
  | .error f => raise f

/-- Runs in a frame of its own, which is gone afterwards. -/
def inFrame {α : Type} (f : Frame) (body : Run α) : Run α := fun env m =>
  match body env { m with frames := f :: m.frames } with
  | .ok a m => .ok a { m with frames := m.frames.tail }
  | .error e m => .error e { m with frames := m.frames.tail }

/-- Changes the innermost frame. -/
def modifyFrame (f : Frame → Frame) : Run Unit :=
  modify fun m =>
    match m with
    | { heap, statics, frames := frame :: rest, console, patience, output, hints, parked } =>
      { heap, statics, frames := f frame :: rest, console, patience, output, hints, parked }
    | m => m

def setLine (line : Nat) : Run Unit :=
  modifyFrame fun f => { f with line }

def setLocal (slot : Nat) (v : Value) : Run Unit :=
  modifyFrame (·.setLocal slot v)

/-- A local of the innermost frame; `null` if it was never written. -/
def getLocal (slot : Nat) : Run Value :=
  return ((← get).frames.head?.bind (·.locals[slot]?)).getD .null

/-- The receiver of the innermost call. -/
def getThis : Run Value :=
  return ((← get).frames.head?.bind (·.this)).getD .null

/-- The module whose code runs. -/
def currentModule : Run Nat := do
  match (← get).frames with
  | f :: _ => return f.module
  | [] => return (← hierarchy).mainIndex

/-- The class a reference of the running code stands for. -/
def resolve (type : TypeRef) : Run ClassId := do
  match (← hierarchy).resolve? (← currentModule) type with
  | some c => return c
  | none => raise (.typeLoad type.name)

end Run

/-- How a block ends. -/
inductive Flow where
  | next
  | ret (value : Value)
  | breakLoop
  | continueLoop
deriving Inhabited

/-- Evaluation with some fuel. Rules are written over an evaluator for the parts of what they
evaluate, so that none of them is recursive. -/
structure Evaluator where
  /-- Rounds that a loop may take. -/
  fuel : Nat
  eval : Image.Expr → Run Value
  exec : Image.Stmt → Run Flow
  /-- The text of a value, by the `ToString` of its class. -/
  display : Value → Run String

end GenLang
