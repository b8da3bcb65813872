import GenLang.Machine

/-!
# Native code

Code that is not written in the language is a sequence of requests to the machine. It knows faults
and no exceptions: where it asks for the text of a value and the code of the program stops, the stop
is parked in the machine and a fault in its place ends the native code. Who entered the native code
takes up what is parked.
-/

namespace GenLang

/-- What native code reaches of a machine. -/
structure Outside where
  heap : Heap
  console : Console
  output : GeneratorOutput
  hints : List String

namespace Machine

def outside (m : Machine) : Outside :=
  ⟨m.heap, m.console, m.output, m.hints⟩

/-- Changes what native code reaches. -/
def changeOutside (m : Machine) (update : Outside → Outside) : Machine :=
  match m with
  | { heap, statics, frames, console, patience, output, hints, parked } =>
    let ⟨heap, console, output, hints⟩ := update ⟨heap, console, output, hints⟩
    { heap, statics, frames, console, patience, output, hints, parked }

/-- Parks why code stopped. -/
def park (m : Machine) (stop : Stop) : Machine :=
  { m with parked := some stop }

/-- Nothing is parked any longer. -/
def unpark (m : Machine) : Machine :=
  { m with parked := none }

end Machine

/-- What native code sees of a stop. -/
def Fault.ofStop : Stop → Fault
  | .thrown _ info => interrupted info.name info.message
  | .cancelled => cancelled
  | .outOfFuel => interrupted "OutOfFuelException" "The operation ran out of fuel."

/-- Native code, by what it asks for next. -/
inductive NativeCode (α : Type) where
  | done (a : α)
  | fail (f : Fault)
  | ask (next : Environment → NativeCode α)
  | look (next : Outside → NativeCode α)
  | change (update : Outside → Outside) (next : NativeCode α)
  /-- Puts something on the heap. -/
  | allocate (place : Heap → Value × Heap) (next : Value → NativeCode α)
  /-- Whether the run is cancelled by now. -/
  | poll (next : Bool → NativeCode α)
  /-- The text of a value, for which code of the program may run. -/
  | display (v : Value) (next : String → NativeCode α)

namespace NativeCode

variable {α β : Type}

protected def bind : NativeCode α → (α → NativeCode β) → NativeCode β
  | done a, f => f a
  | fail fault, _ => fail fault
  | ask next, f => ask fun env => (next env).bind f
  | look next, f => look fun o => (next o).bind f
  | change update next, f => change update (next.bind f)
  | allocate place next, f => allocate place fun v => (next v).bind f
  | poll next, f => poll fun cancelled => (next cancelled).bind f
  | display v next, f => display v fun text => (next text).bind f

instance : Monad NativeCode where
  pure := done
  bind := NativeCode.bind

/-- The text of a value. -/
def text (v : Value) : NativeCode String :=
  display v done

def environment : NativeCode Environment :=
  ask done

def outside : NativeCode Outside :=
  look done

def heap : NativeCode Heap :=
  return (← outside).heap

def modify (update : Outside → Outside) : NativeCode Unit :=
  change update (done ())

def modifyHeap (f : Heap → Heap) : NativeCode Unit :=
  modify fun o => { o with heap := f o.heap }

def write (s : String) : NativeCode Unit :=
  modify fun o => { o with console := o.console.write s }

def place (f : Heap → Value × Heap) : NativeCode Value :=
  allocate f done

def pollCancelled : NativeCode Bool :=
  poll done

def ofExcept : Except Fault α → NativeCode α
  | .ok a => done a
  | .error f => fail f

/-- Runs native code up to its value or the fault that ends it. -/
def run (k : Evaluator) : NativeCode α → Environment → Machine → EStateM.Result Fault Machine α
  | done a, _, m => .ok a m
  | fail f, _, m => .error f m
  | ask next, env, m => (next env).run k env m
  | look next, env, m => (next m.outside).run k env m
  | change update next, env, m => next.run k env (m.changeOutside update)
  | allocate place next, env, m =>
    let (v, m) := m.allocate place
    (next v).run k env m
  | poll next, env, m =>
    let (cancelled, m) := m.poll
    (next cancelled).run k env m
  | display v next, env, m =>
    match k.display v env m with
    | .ok text m => (next text).run k env m
    -- Native code sees a fault; what really happened waits in the machine.
    | .error stop m => .error (.ofStop stop) (m.park stop)

end NativeCode

/-- Enters native code. A parked stop is taken up instead of the fault that native code saw. -/
def Evaluator.enter (k : Evaluator) (code : NativeCode Value) : Run Value := fun env m =>
  match code.run k env m.unpark with
  | .ok v m => .ok v m.unpark
  | .error f m =>
    match m.parked with
    | some stop => .error stop m.unpark
    | none => Run.raise f env m

end GenLang
