import GenLang.Machine.Host

/-!
# Calls, objects and static fields

How methods are called, objects made and static fields initialised. An object has all its fields,
`null` at first, before the first initialiser runs, base classes first. The initialisers of a class
run when one of its static fields is first used.
-/

namespace GenLang

namespace Evaluator

/-- Statements one after the other, up to one that leaves the block. -/
def block (k : Evaluator) : List Image.Stmt → Run Flow
  | [] => return .next
  | s :: ss => do
    match ← k.exec s with
    | .next => k.block ss
    | flow => return flow

/-! ## Calls -/

/-- The arguments, and the default values of the parameters behind them. -/
def bindArgs (m : MethodDef) (args : List Value) : List Value :=
  args ++ (m.params.drop args.length).map fun p => Value.ofLiteral (p.default.getD .null)

/-- Locals at the start of a call: the arguments and `null` for the others. -/
def startLocals (m : MethodDef) (args : List Value) : Array Value :=
  (args ++ List.replicate (m.slots - args.length) Value.null).toArray

/-- The frame of a member of a class. -/
def frameOf (h : Hierarchy) (declaring : ClassId) (member : String) (line : Nat)
    (this : Option Value) (locals : Array Value) : Frame :=
  let t := h.typeDef declaring
  { module := declaring.module, typeName := t.name, method := member, file := t.file, line, locals,
    this }

/-- The value of a call from the way its body ends. An asynchronous method gives a task. -/
def callResult (m : MethodDef) (flow : Flow) : Run Value := do
  let v :=
    match flow with
    | .ret v => v
    | _ => .null
  match m.isAsync, v with
  | true, .task _ => return v
  | true, _ => Run.newTask v
  | false, _ => return v

/-- Calls a method of a class. -/
def call (k : Evaluator) (declaring : ClassId) (m : MethodDef) (this : Option Value)
    (args : List Value) : Run Value := do
  Run.checkCancelled
  if !m.accepts args.length then Run.raise (.argumentCount m.name args.length)
  let args := bindArgs m args
  let env ← read
  let typeName := (env.hierarchy.typeDef declaring).name
  if m.isNative then
    -- Native code has no frame of its own and does not count as a call in progress.
    match env.natives typeName m.name with
    | some n => k.enter (.native n (this.toList ++ args))
    | none => Run.raise (.notBound typeName m.name)
  else
    match m.body with
    | none => Run.raise (.notImplemented typeName m.name)
    | some body =>
      if env.maxCallDepth ≤ (← get).frames.length then Run.raise .stackOverflow
      let frame := frameOf env.hierarchy declaring m.name m.line this (startLocals m args)
      callResult m (← Run.inFrame frame (k.block body))

def callStatic (k : Evaluator) (c : ClassId) (name : String) (args : List Value) : Run Value := do
  let h ← Run.hierarchy
  match h.findMethod? c name with
  | some (declaring, m) =>
    if m.isStatic then k.call declaring m none args
    else Run.raise (.missingMember (h.typeDef c).name name)
  | none => Run.raise (.missingMember (h.typeDef c).name name)

/-- Calls a method of a value, found by the value's class. -/
def callValue (k : Evaluator) (target : Value) (name : String) (args : List Value) :
    Run Value := do
  match target with
  | .null => Run.raise .nullReference
  | .object a =>
    let o := (← Run.heap).instance_ a
    match (← Run.hierarchy).findMethod? o.cls name with
    | some (declaring, m) =>
      if m.isStatic then Run.raise (.missingMember o.className name)
      else k.call declaring m (some target) args
    -- What the class lacks may be there for all values.
    | none => k.enter (.builtinMethod target name args)
  | .host a =>
    Run.checkCancelled
    k.enter (.hostMethod ((← Run.heap).hostObject a) name args)
  | .type c _ => k.callStatic c name args
  | _ => k.enter (.builtinMethod target name args)

/-! ## Objects -/

/-- Instance fields of a class and its base classes, the base classes first, each with the class
that declares it. -/
def instanceFields (h : Hierarchy) (c : ClassId) : List (ClassId × FieldDef) :=
  (h.ancestors c).reverse.flatMap fun owner =>
    ((h.typeDef owner).fields.filter (!·.isStatic)).map (owner, ·)

/-- A new object with all its fields. -/
def blankInstance (h : Hierarchy) (c : ClassId) : Instance :=
  (instanceFields h c).foldl (fun o f => o.define f.2.name .null) ⟨c, (h.typeDef c).name, []⟩

def setField (address : Nat) (name : String) (v : Value) : Run Unit :=
  Run.modifyHeap fun h => h.setObject address ((h.instance_ address).define name v)

/-- Runs the initialisers of an object's fields. -/
def initFields (k : Evaluator) (h : Hierarchy) (address : Nat) :
    List (ClassId × FieldDef) → Run Unit
  | [] => return
  | (owner, f) :: rest => do
    match f.init with
    | some init =>
      let frame := frameOf h owner "init" f.line (some (.object address)) #[]
      setField address f.name (← Run.inFrame frame (k.eval init))
    | none => pure ()
    k.initFields h address rest

/-- Makes an object and calls its constructor. -/
def construct (k : Evaluator) (c : ClassId) (args : List Value) : Run Value := do
  Run.checkCancelled
  let h ← Run.hierarchy
  let t := h.typeDef c
  if !t.isActivatable then Run.raise (.notActivatable t.name)
  -- All fields are there before the first initialiser runs, which may look at any of them.
  let this ← Run.newObject (blankInstance h c)
  match this with
  | .object address => k.initFields h address (instanceFields h c)
  | _ => pure ()
  let constructor? := (h.findMethod? c "init").filter (!·.2.isStatic)
  match constructor? with
  | some (declaring, m) =>
    let _ ← k.call declaring m (some this) args
  | none => if !args.isEmpty then Run.raise (.noConstructor t.name args.length)
  return this

/-! ## Static fields -/

/-- Gives static fields their first values, one after the other. -/
def initStatics (k : Evaluator) (h : Hierarchy) (c : ClassId) : List FieldDef → Run Unit
  | [] => return
  | f :: rest => do
    let v ←
      match f.init with
      | some init => Run.inFrame (frameOf h c ".cctor" f.line none #[]) (k.eval init)
      | none => pure .null
    modify fun m => { m with statics := m.statics.set c f.name v }
    k.initStatics h c rest

/-- Initialises the static fields of a class at their first use. The class counts as initialised
from the beginning on. -/
def ensureStatics (k : Evaluator) (c : ClassId) : Run Unit := do
  if (← get).statics.has c then return
  -- Entered first, so that an initialiser that comes back to the class does not begin again.
  modify fun m => { m with statics := m.statics.enter c }
  let h ← Run.hierarchy
  k.initStatics h c ((h.typeDef c).fields.filter (·.isStatic))

/-- The class that declares a static field, once it is initialised. -/
def staticOwner (k : Evaluator) (c : ClassId) (name : String) : Run ClassId := do
  let h ← Run.hierarchy
  match h.staticOwner? c name with
  | some owner =>
    k.ensureStatics owner
    return owner
  | none => Run.raise (.missingMember (h.typeDef c).name name)

def readStatic (k : Evaluator) (c : ClassId) (name : String) : Run Value := do
  let owner ← k.staticOwner c name
  return ((← get).statics.get? owner name).getD .null

def writeStatic (k : Evaluator) (c : ClassId) (name : String) (v : Value) : Run Unit := do
  let owner ← k.staticOwner c name
  modify fun m => { m with statics := m.statics.set owner name v }

/-! ## Members of values -/

def getMember (k : Evaluator) (target : Value) (name : String) : Run Value := do
  match target with
  | .null => Run.raise .nullReference
  | .object a =>
    let o := (← Run.heap).instance_ a
    match o.get? name with
    | some v => return v
    | none => Run.raise (.missingMember o.className name)
  | .host a => hostMember ((← Run.heap).hostObject a) name
  | .type c _ => k.readStatic c name
  | _ => Run.ofExcept ((← Run.heap).builtinMember target name)

def setMember (k : Evaluator) (target : Value) (name : String) (v : Value) : Run Unit := do
  match target with
  | .null => Run.raise .nullReference
  | .object a =>
    let o := (← Run.heap).instance_ a
    match o.set? name v with
    | some o => Run.modifyHeap (·.setObject a o)
    | none => Run.raise (.missingMember o.className name)
  | .type c _ => k.writeStatic c name v
  | _ => Run.raise (.notMemberAssignable name ((← Run.heap).typeName target))

/-! ## Texts of values and exceptions -/

/-- The text of a value. Objects are asked for it if their class has a fitting `ToString`. -/
def displayValue (k : Evaluator) (v : Value) : Run String := do
  match v with
  | .object a =>
    let o := (← Run.heap).instance_ a
    match (← Run.hierarchy).findMethod? o.cls "ToString" with
    | some (declaring, m) =>
      if !m.isStatic && m.accepts 0 then
        let text ← k.call declaring m (some v) []
        return (← Run.heap).plain text
      else return o.className
    | none => return o.className
  | .list a => return Heap.bracketed (← ((← Run.heap).items a).toList.mapM k.display)
  | v => return (← Run.heap).plain v

/-- The name and the message of the exception that a value makes when thrown. -/
def describe (k : Evaluator) (v : Value) : Run (String × String) := do
  let h ← Run.hierarchy
  match v, h.exceptionClass? with
  | .object a, some base =>
    let o := (← Run.heap).instance_ a
    if h.isSubclassOf o.cls base then
      let message ← k.display ((o.get? "Message").getD .null)
      return (o.className, message)
    else return ("Exception", ← k.display v)
  -- Anything else that is thrown is shown as the message of a plain exception.
  | v, _ => return ("Exception", ← k.display v)

/-- Throws a value. -/
def throwValue {α : Type} (k : Evaluator) (v : Value) : Run α := do
  match v with
  | .null => Run.raise .nullReference
  | v =>
    let (name, message) ← k.describe v
    throw (.thrown v ⟨name, message, ← Run.trace⟩)

end Evaluator

end GenLang
