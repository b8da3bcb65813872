import GenLang.Hierarchy
import GenLang.Decimal.Shortest

/-!
# Values

Dynamically typed values and the heap. Lists, objects, tasks and the host's objects have identity:
a value holds their address, and the heap has one store for each of the four, so that an address
never leads to something of another kind.
-/

namespace GenLang

/-- What the host of a generator hands to it: the context of its run and views of the program. -/
inductive HostObject where
  | context
  | compilation
  | type (symbol : TypeSymbol)
  | method (symbol : MethodSymbol)
  | param (symbol : ParamSymbol)
  | invocation (invocation : Invocation)
  | sourceFile (unit : SourceUnit)
deriving Inhabited

/-- The type name that a host object shows. -/
def HostObject.typeName : HostObject → String
  | context => "GeneratorContext"
  | compilation => "Compilation"
  | type _ => "TypeInfo"
  | method _ => "MethodInfo"
  | param _ => "ParameterInfo"
  | invocation _ => "InvocationInfo"
  | sourceFile _ => "SourceFile"

inductive Value where
  | null
  | bool (value : Bool)
  | int (value : Int64)
  | float (value : Float)
  | str (value : String)
  | list (address : Nat)
  | object (address : Nat)
  /-- A class used as a value, under the name it was referred to by. -/
  | type (cls : ClassId) (name : String)
  /-- A completed task. -/
  | task (address : Nat)
  | host (address : Nat)
deriving DecidableEq, Repr, Inhabited

/-- An object: its class, the name it shows, and its fields. -/
structure Instance where
  cls : ClassId
  className : String
  fields : List (String × Value)
deriving Repr, Inhabited

namespace Instance

def get? (o : Instance) (name : String) : Option Value :=
  o.fields.lookup name

/-- Writes a field that is there. -/
def set? (o : Instance) (name : String) (value : Value) : Option Instance :=
  if (o.get? name).isSome then
    some { o with fields := o.fields.map fun f => if f.1 == name then (name, value) else f }
  else none

/-- Writes a field, which need not be there. -/
def define (o : Instance) (name : String) (value : Value) : Instance :=
  match o.set? name value with
  | some o => o
  | none => { o with fields := o.fields ++ [(name, value)] }

end Instance

/-- What has identity, by address. -/
structure Heap where
  lists : Array (Array Value) := #[]
  objects : Array Instance := #[]
  tasks : Array Value := #[]
  hosts : Array HostObject := #[]
deriving Inhabited

namespace Heap

def items (h : Heap) (address : Nat) : Array Value :=
  h.lists.getD address #[]

def instance_ (h : Heap) (address : Nat) : Instance :=
  h.objects.getD address default

def result (h : Heap) (address : Nat) : Value :=
  h.tasks.getD address .null

def hostObject (h : Heap) (address : Nat) : HostObject :=
  h.hosts.getD address default

def newList (h : Heap) (items : Array Value) : Value × Heap :=
  (.list h.lists.size, { h with lists := h.lists.push items })

def newObject (h : Heap) (o : Instance) : Value × Heap :=
  (.object h.objects.size, { h with objects := h.objects.push o })

def newTask (h : Heap) (result : Value) : Value × Heap :=
  (.task h.tasks.size, { h with tasks := h.tasks.push result })

def newHost (h : Heap) (object : HostObject) : Value × Heap :=
  (.host h.hosts.size, { h with hosts := h.hosts.push object })

/-- A list of the host's objects. -/
def newViews (h : Heap) (objects : List HostObject) : Value × Heap :=
  let (views, h) := objects.foldl (fun (views, h) object =>
    let (v, h) := h.newHost object
    (views.push v, h)) (#[], h)
  h.newList views

/-- Changes the items of a list. -/
def modifyList (h : Heap) (address : Nat) (f : Array Value → Array Value) : Heap :=
  { h with lists := h.lists.modify address f }

def setObject (h : Heap) (address : Nat) (o : Instance) : Heap :=
  { h with objects := h.objects.setIfInBounds address o }

end Heap

namespace Value

/-- The value of a constant. -/
def ofLiteral : Literal → Value
  | .null => null
  | .bool b => bool b
  | .int n => int n
  | .float x => float x
  | .str s => str s

/-- A text that may be missing. -/
def ofOption : Option String → Value
  | some s => str s
  | none => null

/-- Null, `false`, zero and the empty text are false. -/
def isTruthy : Value → Bool
  | null => false
  | bool b => b
  | int n => n != 0
  | float x => x != 0.0
  | str s => !s.isEmpty
  | _ => true

/-- Equality of the language: numbers by their value, texts by their characters, what has identity
by its identity. -/
def equals : Value → Value → Bool
  | null, null => true
  | bool a, bool b => a == b
  | int a, int b => a == b
  | float a, float b => a == b
  | int a, float b => a.toFloat == b
  | float a, int b => b.toFloat == a
  | str a, str b => a == b
  | list a, list b => a == b
  | object a, object b => a == b
  | type a _, type b _ => a == b
  | task a, task b => a == b
  | host a, host b => a == b
  | _, _ => false

def asString? : Value → Option String
  | str s => some s
  | _ => none

def asInt? : Value → Option Int64
  | int n => some n
  | _ => none

end Value

namespace Heap

/-- The name of a value's type as messages show it. -/
def typeName (h : Heap) : Value → String
  | .null => "null"
  | .bool _ => "Bool"
  | .int _ => "Int"
  | .float _ => "Float"
  | .str _ => "String"
  | .list _ => "List"
  | .object a => (h.instance_ a).className
  | .type _ name => "Type<" ++ name ++ ">"
  | .task _ => "Task"
  | .host a => (h.hostObject a).typeName

/-- The text of a value that holds no list. -/
def scalarText (h : Heap) : Value → String
  | .null | .list _ => ""
  | .bool b => if b then "true" else "false"
  | .int n => toString n.toInt
  | .float x => Decimal.plain x
  | .str s => s
  | .object a => (h.instance_ a).className
  | .type _ name => name
  | .task _ => "Task"
  | .host a => (h.hostObject a).typeName

/-- Texts in brackets. -/
def bracketed (parts : List String) : String :=
  "[" ++ ", ".intercalate parts ++ "]"

/-- The text of a value whose lists are nested at most so deep. -/
def textTo (h : Heap) : Nat → Value → String
  | 0, _ => ""
  | n + 1, .list a => bracketed ((h.items a).toList.map (h.textTo n))
  | _ + 1, v => h.scalarText v

/-- The text of a value without the `ToString` of its class. Lists that do not hold themselves are
nested less deep than there are lists. -/
def plain (h : Heap) (v : Value) : String :=
  h.textTo (h.lists.size + 1) v

end Heap

end GenLang
