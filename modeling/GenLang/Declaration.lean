import GenLang.Symbol
import GenLang.Syntax.Source

/-!
# Declarations

The symbols of declared types and the rules that declarations keep: no name twice, bases that are
known and fit, no cycle of bases, bodies where they belong, annotations that name types, and every
capability implemented. A declaration whose name is taken is reported and left out.
-/

namespace GenLang

open Text

/-- What a compilation may contain. -/
structure CompileOptions where
  kind : OutputKind
  /-- Whether methods may be native. -/
  allowNative : Bool
deriving DecidableEq, Repr, Inhabited

namespace CompileOptions

def library : CompileOptions := ⟨.library, false⟩

/-- A module that is to hold `Program.Main`. -/
def executable : CompileOptions := ⟨.executable, false⟩

/-- A library to be referred to, which may hold native methods. -/
def referenceLibrary : CompileOptions := ⟨.library, true⟩

end CompileOptions

/-- Source units by file name, for places in diagnostics. Of two with one name the last counts. -/
structure Sources where
  units : List SourceUnit
deriving DecidableEq, Repr, Inhabited

namespace Sources

def text? (s : Sources) (file : String) : Option String :=
  (s.units.reverse.find? (·.name == file)).map (·.text)

/-- The line of a byte of a file; 0 if the file is not known. -/
def line (s : Sources) (file : String) (offset : Nat) : Nat :=
  match s.text? file with
  | some text => (Position.ofByte text offset).line.toNat
  | none => 0

/-- A diagnostic of the compiler at the start of a span. -/
def diagnostic (s : Sources) (code : Code) (file : String) (span : Span) (message : String) :
    Diagnostic :=
  let d := Diagnostic.ofCode code message
  match s.text? file with
  | some text => d.located (.ofByte file text span.start)
  | none => d

end Sources

/-- A declaration and the file it is in. -/
structure Declaration where
  file : String
  decl : TypeDecl
deriving Inhabited

namespace Declaration

def methodSymbol (m : MethodDecl) : MethodSymbol where
  name := m.name.name
  isStatic := m.isStatic
  isAsync := m.isAsync
  isNative := m.isNative
  hasBody := m.body.isSome
  params := m.params.map fun p => ⟨p.name.name, p.typeName.map (·.name), p.default.isSome⟩
  returns := m.returns.map (·.name)

def symbol (d : Declaration) : TypeSymbol where
  name := d.decl.name.name
  library := none
  kind :=
    match d.decl.kind with
    | .type => .class_
    | .capability => .capability
  isAbstract := d.decl.isAbstract
  isStatic := d.decl.isStatic
  generics := d.decl.generics.map (·.name)
  bases := d.decl.bases.map (·.name)
  fields := d.decl.fields.map fun f => ⟨f.name.name, f.isStatic⟩
  methods := d.decl.methods.map methodSymbol
  file := some d.file

/-! ## The table of symbols -/

/-- The types of libraries; of two with one name the first stays. -/
def libraryTable (libraries : List Image) : SymbolTable :=
  libraries.foldl (fun table library =>
    library.types.foldl (fun table t =>
      match table.insert (.ofDef t library.name) with
      | .ok table => table
      | .error _ => table) table) .empty

/-- The complaint about a declaration whose name is taken. -/
def duplicateMessage (name : String) (other : TypeSymbol) : String :=
  match other.library with
  | some library =>
    "The type '" ++ name ++ "' conflicts with a type of the same name in library '" ++ library ++
      "'"
  | none => "The type '" ++ name ++ "' is already declared"

/-- Enters declarations into a table: the table, the declarations entered, and a diagnostic for
each of the others. -/
def enter (sources : Sources) (table : SymbolTable) :
    List Declaration → SymbolTable × List Declaration × List Diagnostic
  | [] => (table, [], [])
  | d :: ds =>
    match table.insert d.symbol with
    | .ok table =>
      let (table, accepted, diagnostics) := enter sources table ds
      (table, d :: accepted, diagnostics)
    | .error other =>
      let (table, accepted, diagnostics) := enter sources table ds
      (table, accepted,
        sources.diagnostic .duplicateType d.file d.decl.name.span
          (duplicateMessage d.decl.name.name other) :: diagnostics)

/-! ## Checks -/

/-- Members whose name an earlier member has. -/
def duplicateMembers : List String → List Member → List Ident
  | _, [] => []
  | seen, m :: ms =>
    if seen.contains m.name.name then m.name :: duplicateMembers seen ms
    else duplicateMembers (m.name.name :: seen) ms

/-- Faults in a list of bases, given the first that is a type. -/
def baseFaults (table : SymbolTable) (decl : TypeDecl) :
    Option String → List Ident → List (Code × Span × String)
  | _, [] => []
  | first, b :: bs =>
    match table.find? b.name with
    | none =>
      (.unknownBaseType, b.span, "The type or capability '" ++ b.name ++ "' could not be found") ::
        baseFaults table decl first bs
    | some t =>
      if t.isCapability then baseFaults table decl first bs
      else
        match decl.kind, first with
        | .capability, _ =>
          (.invalidBaseList, b.span,
            "Capability '" ++ decl.name.name ++ "' cannot inherit from type '" ++ b.name ++ "'") ::
            baseFaults table decl first bs
        | .type, some other =>
          (.invalidBaseList, b.span,
            "Type '" ++ decl.name.name ++ "' cannot have multiple base types '" ++ other ++
              "' and '" ++ b.name ++ "'") :: baseFaults table decl first bs
        | .type, none => baseFaults table decl (some b.name) bs

/-- The fault of a body that is missing or should be. -/
def bodyFault? (kind : TypeKind) (qualified : String) (m : MethodDecl) : Option String :=
  match kind, m.body.isSome, m.isNative with
  | .capability, true, _ =>
    some ("Capability member '" ++ qualified ++ "' cannot declare a body")
  | .type, true, true =>
    some ("'" ++ qualified ++ "' cannot declare a body because it is marked extern")
  | .type, false, false =>
    some ("'" ++ qualified ++ "' must declare a body because it is not marked extern")
  | _, _, _ => none

def methodFaults (table : SymbolTable) (decl : TypeDecl) (options : CompileOptions)
    (m : MethodDecl) : List (Code × Span × String) :=
  let qualified := decl.name.name ++ "." ++ m.name.name
  let native :=
    if m.isNative && !options.allowNative then
      [(Code.nativeNotAllowed, m.name.span, "'" ++ qualified ++
        "' cannot be extern: 'extern' is only allowed in reference libraries")]
    else []
  let body :=
    match bodyFault? decl.kind qualified m with
    | some message => [(Code.invalidMethodBody, m.name.span, message)]
    | none => []
  let unknown := (m.params.filterMap (·.typeName) ++ m.returns.toList).filter fun a =>
    -- Generic parameters name types only where they are declared.
    !(decl.generics.any (·.name == a.name) || table.isKnownTypeName a.name)
  native ++ body ++ unknown.map fun a =>
    (.unknownTypeName, a.span, "The type name '" ++ a.name ++ "' could not be found")

/-- Whether a type has an instance method that does what a capability asks for. -/
def isImplemented (table : SymbolTable) (type : String) (wanted : MethodSymbol) : Bool :=
  match table.method? type wanted.name with
  | some (_, m) =>
    !m.isStatic && (m.hasBody || m.isNative) && m.params.length == wanted.params.length
  | none => false

/-- A capability's method as messages show it. -/
def signature (capability : TypeSymbol) (m : MethodSymbol) : String :=
  capability.name ++ "." ++ m.name ++ "(" ++ ", ".intercalate (m.params.map (·.name)) ++ ")"

def capabilityFaults (table : SymbolTable) (decl : TypeDecl) : List (Code × Span × String) :=
  (table.capabilitiesOf decl.name.name).flatMap fun capability =>
    (capability.methods.filter fun m =>
      !m.isStatic && !isImplemented table decl.name.name m).map fun m =>
        (.missingCapabilityMember, decl.name.span, "'" ++ decl.name.name ++
          "' does not implement capability member '" ++ signature capability m ++ "'")

/-- Every fault of a declaration. -/
def faults (table : SymbolTable) (options : CompileOptions) (decl : TypeDecl) :
    List (Code × Span × String) :=
  let name := decl.name.name
  ((duplicateMembers [] decl.members).map fun m =>
    (.duplicateMember, m.span, "The type '" ++ name ++ "' already contains a definition for '" ++
      m.name ++ "'")) ++
  baseFaults table decl none decl.bases ++
  (if table.inCycle name then
    [(.inheritanceCycle, decl.name.span,
      "Circular base type dependency involving '" ++ name ++ "'")]
   else []) ++
  decl.methods.flatMap (methodFaults table decl options) ++
  -- An abstract type may leave members to those that inherit from it.
  (if decl.kind == .type && !decl.isAbstract then capabilityFaults table decl else [])

/-- The diagnostics of entered declarations. -/
def check (sources : Sources) (table : SymbolTable) (options : CompileOptions)
    (accepted : List Declaration) : List Diagnostic :=
  accepted.flatMap fun d =>
    (faults table options d.decl).map fun (code, span, message) =>
      sources.diagnostic code d.file span message

/-- The warning about an executable in which nothing can be started. -/
def checkEntryPoint (table : SymbolTable) : List Diagnostic :=
  let hasMain := (table.localTypes.filter (·.name == "Program")).any fun t =>
    match t.method? "Main" with
    | some m => m.isStatic
    | none => false
  if hasMain then []
  else
    [.ofCode .missingEntryPoint
      "Program does not contain a static 'Main' method suitable for an entry point"]

end Declaration

end GenLang
