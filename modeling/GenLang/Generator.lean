import GenLang.Stage
import GenLang.Cache

/-!
# Generators

A generator is a class of a compiled module that has the capability `Generation::Generator` and can
be made without arguments. Compiling a module finds its generators; compiled modules are kept in a
cache. A generator looks at a program and delivers sources and diagnostics; one that throws delivers
a diagnostic instead.
-/

namespace GenLang

/-- A class that can generate sources. -/
structure Generator where
  image : Image
  libraries : References
  className : String
  limits : Limits
deriving Inhabited

namespace Generator

/-- The class in its module, loaded afresh. -/
def load (g : Generator) : Except String (Hierarchy × ClassId) := do
  let h ← (Hierarchy.load g.image g.libraries).mapError (·.message)
  match h.findClass? g.className with
  | some c => return (h, c)
  | none => throw ("type '" ++ g.className ++ "' is missing from its module")

def evaluator (g : Generator) : Evaluator :=
  .ofFuel g.limits.fuel

/-- What a generator prints is logged by line. -/
def startMachine (patience : Patience) : Machine :=
  { console := .log #[] "", patience }

/-- Makes an object of the class once, to see whether that works; the lines logged come with it. -/
def activate (g : Generator) : Except String Unit × List String :=
  match g.load with
  | .error e => (.error e, [])
  | .ok (h, c) =>
    let env : Environment := { hierarchy := h, maxCallDepth := g.limits.maxCallDepth }
    let (result, m) := (startMachine none).run env (g.evaluator.construct c [])
    ((result.map fun _ => ()).mapError (·.message), m.console.lines)

/-- The delivery of a generator that failed: what was delivered before counts no longer. -/
def failed (g : Generator) (description : String) : GeneratorOutput where
  diagnostics :=
    [.ofCode .generatorFailed
      ("Generator '" ++ g.className ++ "' failed to generate source: " ++ description)]

/-- Makes a generator and hands it its context. -/
def generate (k : Evaluator) (c : ClassId) : Run Unit := do
  let context ← Run.newHost .context
  let generator ← k.construct c []
  let _ ← k.callValue generator "Execute" [context]

/-- Runs a generator on a program: its delivery and the lines logged. Only being cancelled keeps it
from delivering. -/
def execute (g : Generator) (model : SemanticModel) (patience : Patience) :
    Except Cancelled (GeneratorOutput × Patience) × List String :=
  match patience.check with
  | .error e => (.error e, [])
  | .ok patience =>
    match g.load with
    | .error e => (.ok (g.failed e, patience), [])
    | .ok (h, c) =>
      let env : Environment :=
        { hierarchy := h, maxCallDepth := g.limits.maxCallDepth, generator := g.className, model }
      let (result, m) := (startMachine patience).run env (generate g.evaluator c)
      let output :=
        match result with
        | .ok () => .ok (m.output, m.patience)
        | .error .cancelled => .error {}
        | .error e => .ok (g.failed e.message, m.patience)
      (output, m.console.lines)

/-- The generators of a module in the order of its classes, and the lines logged while they were
tried. -/
def discover (image : Image) (libraries : References) (limits : Limits) :
    Except StageError (List Generator) × List String :=
  match Hierarchy.load image libraries with
  | .error e => (.error (.emit .generator e.message), [])
  | .ok h =>
    let candidates :=
      match h.findLibraryClass? "Generation" "Generator" with
      | none => []
      | some capability =>
        h.classes.filter fun c => (h.typeDef c).isActivatable && h.implements c capability
    let tried :=
      candidates.map fun c =>
        let g : Generator := ⟨image, libraries, (h.typeDef c).name, limits⟩
        (g, g.activate)
    -- A class that cannot be made without arguments is passed over.
    let found := (tried.filter fun t => t.2.1.isOk).map (·.1)
    (if found.isEmpty then .error (.instantiation (image.types.map (·.name))) else .ok found,
     tried.flatMap fun t => t.2.2)

end Generator

/-- Compiles modules of generators and keeps them. -/
structure GeneratorCompiler where
  cache : Cache (List Generator) := { capacity := Cache.defaultCapacity }
  /-- How often something was compiled because it was not in the cache. -/
  compileCount : Nat := 0
  /-- The name under which diagnostics place the source. -/
  fileName : String := "Generator.gen"
  limits : Limits := {}
deriving Inhabited

namespace GeneratorCompiler

/-- The module of a compiled source, as a reader of its bytes gets it. -/
def readBack (c : Compilation) : Except StageError Image := do
  if c.hasErrors then throw (.compile .generator c.errors)
  let bytes ← c.emit.mapError fun e => .emit .generator e.message
  (Image.decode bytes).mapError fun e => .emit .generator e.message

/-- Compiles a source without looking into the cache. Making objects of its classes cannot be
cancelled. -/
def build (s : GeneratorCompiler) (source : String) (libraries : References)
    (patience : Patience) : Except StageError (List Generator × Patience) × List String :=
  let built : Except StageError (Image × Patience) := do
    let (c, patience) ← (Compilation.create "Generator" [⟨s.fileName, source⟩] libraries .library
      patience).mapError fun _ => .cancelled
    let image ← readBack c
    let patience ← patience.check.mapError fun _ => .cancelled
    return (image, patience)
  match built with
  | .error e => (.error e, [])
  | .ok (image, patience) =>
    let (found, log) := Generator.discover image libraries s.limits
    (found.map (·, patience), log)

/-- The generators of a source, from the cache if they are there. Only what compiled is kept. The
lines logged come last. -/
def compile (s : GeneratorCompiler) (source : String) (libraries : References)
    (patience : Patience) :
    Except StageError (List Generator × Patience) × GeneratorCompiler × List String :=
  if Text.allBlank source then (.error (.inputMissing .generator), s, [])
  else
    let key := CacheKey.ofSource source
    match s.cache.get key with
    | (some found, cache) => (.ok (found, patience), { s with cache }, [])
    | (none, _) =>
      let s := { s with compileCount := s.compileCount + 1 }
      match s.build source libraries patience with
      | (.ok (found, patience), log) =>
        (.ok (found, patience), { s with cache := (s.cache.insert key found).2 }, log)
      | (.error e, log) => (.error e, s, log)

end GeneratorCompiler

end GenLang
