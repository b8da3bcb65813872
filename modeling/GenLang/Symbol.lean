import GenLang.Image
import GenLang.Graph

/-!
# Symbols

What a compilation knows of types by name: those it declares and those of the libraries it refers
to. Members are looked up in a type and then in its base types; the capabilities of a type are all
that its bases lead to.
-/

namespace GenLang

structure ParamSymbol where
  name : String
  typeName : Option String
  hasDefault : Bool
deriving DecidableEq, Repr, Inhabited

structure FieldSymbol where
  name : String
  isStatic : Bool
deriving DecidableEq, Repr, Inhabited

structure MethodSymbol where
  name : String
  isStatic : Bool
  isAsync : Bool
  isNative : Bool
  hasBody : Bool
  params : List ParamSymbol
  returns : Option String
deriving DecidableEq, Repr, Inhabited

namespace MethodSymbol

/-- Parameters without a default value. -/
def requiredParams (m : MethodSymbol) : Nat :=
  (m.params.filter (!·.hasDefault)).length

/-- Whether that many arguments may be given. -/
def accepts (m : MethodSymbol) (count : Nat) : Bool :=
  m.requiredParams ≤ count && count ≤ m.params.length

def ofDef (m : MethodDef) : MethodSymbol where
  name := m.name
  isStatic := m.isStatic
  isAsync := m.isAsync
  isNative := m.isNative
  hasBody := m.body.isSome
  params := m.params.map fun p => ⟨p.name, p.typeName, p.default.isSome⟩
  returns := m.returns

end MethodSymbol

structure TypeSymbol where
  name : String
  /-- The library that declares the type, unless the compilation does. -/
  library : Option String
  kind : ClassKind
  isAbstract : Bool
  isStatic : Bool
  generics : List String
  /-- Names of base types and capabilities. -/
  bases : List String
  fields : List FieldSymbol
  methods : List MethodSymbol
  file : Option String
deriving DecidableEq, Repr, Inhabited

namespace TypeSymbol

def isCapability (t : TypeSymbol) : Bool :=
  t.kind == .capability

def method? (t : TypeSymbol) (name : String) : Option MethodSymbol :=
  t.methods.find? (·.name == name)

def field? (t : TypeSymbol) (name : String) : Option FieldSymbol :=
  t.fields.find? (·.name == name)

def ref (t : TypeSymbol) : TypeRef :=
  ⟨t.library, t.name⟩

/-- A type of a library, as its image shows it. -/
def ofDef (t : TypeDef) (library : String) : TypeSymbol where
  name := t.name
  library := some library
  kind := t.kind
  isAbstract := t.isAbstract
  isStatic := t.isStatic
  generics := t.generics
  bases := (t.base.toList ++ t.capabilities).map (·.name)
  fields := t.fields.map fun f => ⟨f.name, f.isStatic⟩
  methods := t.methods.map .ofDef
  file := none

end TypeSymbol

/-- A member that a look-up found. -/
inductive MemberSymbol where
  | field (field : FieldSymbol)
  | method (method : MethodSymbol)
deriving DecidableEq, Repr, Inhabited

def MemberSymbol.isStatic : MemberSymbol → Bool
  | field f => f.isStatic
  | method m => m.isStatic

/-- All types in sight, no two of one name, libraries first. -/
structure SymbolTable where
  types : List TypeSymbol
  nodup : (types.map (·.name)).Nodup

namespace SymbolTable

def empty : SymbolTable := ⟨[], by simp⟩

instance : Inhabited SymbolTable := ⟨empty⟩

def find? (s : SymbolTable) (name : String) : Option TypeSymbol :=
  s.types.find? (·.name == name)

/-- With one more type, or the type that has its name already. -/
def insert (s : SymbolTable) (t : TypeSymbol) : Except TypeSymbol SymbolTable :=
  match h : s.find? t.name with
  | some other => .error other
  | none =>
    .ok
      { types := s.types ++ [t]
        nodup := by
          rw [List.map_append, List.nodup_append]
          refine ⟨s.nodup, by simp, ?_⟩
          intro a ha b hb
          simp only [List.map_cons, List.map_nil, List.mem_singleton] at hb
          obtain ⟨u, hu, rfl⟩ := List.mem_map.1 ha
          subst hb
          simpa using List.find?_eq_none.1 h u hu }

/-- Types that the compilation declares itself. -/
def localTypes (s : SymbolTable) : List TypeSymbol :=
  s.types.filter (·.library.isNone)

/-- Base names of a type; a name that is not known has none. -/
def basesOf (s : SymbolTable) (name : String) : List String :=
  match s.find? name with
  | some t => t.bases
  | none => []

/-- The first base that is a known type and no capability. -/
def base? (s : SymbolTable) (name : String) : Option TypeSymbol :=
  ((s.basesOf name).filterMap s.find?).find? (!·.isCapability)

/-- A type and its base types, the nearest first, up to where they would repeat. -/
def ancestors (s : SymbolTable) (name : String) : List TypeSymbol :=
  (Graph.chain (fun n => (s.base? n).map (·.name)) s.types.length []
    ((s.find? name).map (·.name))).filterMap s.find?

/-- A member of a type or of its base types, with the type that declares it. Fields come before
methods. -/
def member? (s : SymbolTable) (type member : String) : Option (TypeSymbol × MemberSymbol) :=
  (s.ancestors type).findSome? fun owner =>
    match owner.field? member with
    | some f => some (owner, .field f)
    | none => (owner.method? member).map fun m => (owner, .method m)

/-- A method of a type or of its base types, with the type that declares it. -/
def method? (s : SymbolTable) (type method : String) : Option (TypeSymbol × MethodSymbol) :=
  (s.ancestors type).findSome? fun owner => (owner.method? method).map (owner, ·)

/-- The method that makes new objects, if it is not static. -/
def constructor? (s : SymbolTable) (type : String) : Option MethodSymbol :=
  ((s.method? type "init").map (·.2)).filter (!·.isStatic)

/-- Bound for work lists: every type's bases enter at most twice. -/
def edgeBound (s : SymbolTable) : Nat :=
  2 * (s.types.flatMap (·.bases)).length + 2

/-- Names that bases lead to from some names, these included. -/
def reachable (s : SymbolTable) (start : List String) : List String :=
  Graph.visit s.basesOf s.edgeBound start []

/-- Whether the bases of a type lead back to it. -/
def inCycle (s : SymbolTable) (name : String) : Bool :=
  (s.reachable (s.basesOf name)).contains name

/-- Every capability that a type has, directly or through its bases, by name. -/
def capabilitiesOf (s : SymbolTable) (name : String) : List TypeSymbol :=
  (((s.reachable [name]).filterMap s.find?).filter
    -- In a cycle a capability leads back to itself, but it is not its own.
    fun t => t.isCapability && t.name != name).mergeSort fun a b => !(b.name < a.name)

def implements (s : SymbolTable) (name capability : String) : Bool :=
  (s.capabilitiesOf name).any (·.name == capability)

/-- Type names that need no declaration. -/
def builtinNames : List String :=
  ["void", "Object", "String", "Int", "Float", "Bool", "List"]

def isKnownTypeName (s : SymbolTable) (name : String) : Bool :=
  builtinNames.contains name || (s.find? name).isSome

end SymbolTable

/-- A call in the program's text. -/
structure Invocation where
  /-- The receiving type as far as the text tells it. -/
  typeName : Option String
  method : String
  /-- Arguments that are literals. -/
  arguments : List (Option Literal)
  /-- The member that holds the call, as `Type.Member`. -/
  caller : String
  file : String
  line : Nat
deriving DecidableEq, Repr, Inhabited

end GenLang
