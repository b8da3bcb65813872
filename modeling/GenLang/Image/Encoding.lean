import GenLang.Image
import GenLang.Image.Schema

/-!
# The bytes of a module image

An image is written as a MessagePack record. Reading checks the version last, so that an image of
another version is told apart from bytes that are no image.
-/

namespace GenLang

open Pack

/-- Why bytes write no image. -/
inductive FormatError where
  /-- They write no value at all. -/
  | unread (cause : Pack.ReadError)
  /-- The value they write is none of an image. -/
  | shape
deriving DecidableEq, Repr, Inhabited

def FormatError.message : FormatError → String
  | unread e => e.message
  | shape => "invalid value, expected struct ModuleImage"

/-- Why bytes are not read as an image. -/
inductive DecodeError where
  | format (cause : FormatError)
  | version (found : Nat)
deriving DecidableEq, Repr, Inhabited

namespace DecodeError

/-- The bytes may well write an image, but the reader does not follow it so far. -/
def tooDeep : DecodeError :=
  .format (.unread .tooDeep)

def message : DecodeError → String
  | format e => "invalid module image: " ++ e.message
  | version v => "unsupported module format version " ++ toString v

end DecodeError

/-! ## Writing -/

def OutputKind.name : OutputKind → String
  | library => "Library"
  | executable => "Executable"

def ClassKind.name : ClassKind → String
  | class_ => "Class"
  | capability => "Capability"

def ReturnShape.name : ReturnShape → String
  | void => "Void"
  | awaitable => "Awaitable"
  | value => "Value"

def UnaryOp.name : UnaryOp → String
  | not => "Not"
  | neg => "Neg"

def BinaryOp.name : BinaryOp → String
  | or => "Or"
  | and => "And"
  | eq => "Eq"
  | notEq => "NotEq"
  | lt => "Lt"
  | ltEq => "LtEq"
  | gt => "Gt"
  | gtEq => "GtEq"
  | add => "Add"
  | sub => "Sub"
  | mul => "Mul"
  | div => "Div"
  | rem => "Rem"

def Literal.toPack : Literal → Pack
  | null => .str "Null"
  | bool b => tagged "Bool" (.bool b)
  | int n => tagged "Int" (.int n.toInt)
  | float x => tagged "Float" (.float x)
  | str s => tagged "Str" (.str s)

def TypeRef.toPack (t : TypeRef) : Pack :=
  record [("library", ofOption .str t.library), ("name", .str t.name)]

namespace Image

mutual

def Expr.toPack : Expr → Pack
  | const c => tagged "Const" c.toPack
  | slot n => tagged "Local" (ofNat n)
  | self => .str "SelfRef"
  | type t => tagged "Type" t.toPack
  | list items => tagged "List" (.array (Expr.toPacks items))
  | new t args => tagged "New" (record [("ty", t.toPack), ("args", .array (Expr.toPacks args))])
  | field e name => tagged "Field" (record [("target", e.toPack), ("name", .str name)])
  | staticField t name =>
    tagged "StaticField" (record [("owner", t.toPack), ("name", .str name)])
  | call e method args =>
    tagged "Call" (record [("target", e.toPack), ("method", .str method),
      ("args", .array (Expr.toPacks args))])
  | staticCall t method args =>
    tagged "StaticCall" (record [("owner", t.toPack), ("method", .str method),
      ("args", .array (Expr.toPacks args))])
  | index e i => tagged "Index" (record [("target", e.toPack), ("index", i.toPack)])
  | unary op e => tagged "Unary" (record [("op", .str op.name), ("operand", e.toPack)])
  | binary op a b =>
    tagged "Binary" (record [("op", .str op.name), ("lhs", a.toPack), ("rhs", b.toPack)])
  | await e => tagged "Await" e.toPack

def Expr.toPacks : List Expr → List Pack
  | [] => []
  | e :: es => e.toPack :: Expr.toPacks es

end

def Place.toPack : Place → Pack
  | slot n => tagged "Local" (ofNat n)
  | field e name => tagged "Field" (record [("target", e.toPack), ("name", .str name)])
  | staticField t name =>
    tagged "StaticField" (record [("owner", t.toPack), ("name", .str name)])
  | index e i => tagged "Index" (record [("target", e.toPack), ("index", i.toPack)])

def ofLine (line : Nat) (kind : Pack) : Pack :=
  record [("line", ofNat line), ("kind", kind)]

mutual

def Stmt.toPack : Stmt → Pack
  | declare l s init =>
    ofLine l (tagged "Local" (record [("slot", ofNat s), ("init", ofOption Expr.toPack init)]))
  | assign l place e =>
    ofLine l (tagged "Assign" (record [("place", place.toPack), ("value", e.toPack)]))
  | expr l e => ofLine l (tagged "Expr" e.toPack)
  | cond l c a b =>
    ofLine l (tagged "If" (record [("cond", c.toPack), ("then_body", .array (Stmt.toPacks a)),
      ("else_body", .array (Stmt.toPacks b))]))
  | whileLoop l c b =>
    ofLine l (tagged "While" (record [("cond", c.toPack), ("body", .array (Stmt.toPacks b))]))
  | forLoop l s e b =>
    ofLine l (tagged "ForEach" (record [("slot", ofNat s), ("iterable", e.toPack),
      ("body", .array (Stmt.toPacks b))]))
  | ret l e => ofLine l (tagged "Return" (ofOption Expr.toPack e))
  | throw l e => ofLine l (tagged "Throw" e.toPack)
  | tryCatch l b s h =>
    ofLine l (tagged "Try" (record [("body", .array (Stmt.toPacks b)), ("slot", ofOption ofNat s),
      ("handler", .array (Stmt.toPacks h))]))
  | breakLoop l => ofLine l (.str "Break")
  | continueLoop l => ofLine l (.str "Continue")
  | block l b => ofLine l (tagged "Block" (.array (Stmt.toPacks b)))

def Stmt.toPacks : List Stmt → List Pack
  | [] => []
  | s :: ss => s.toPack :: Stmt.toPacks ss

end

end Image

def ParamDef.toPack (p : ParamDef) : Pack :=
  record [("name", .str p.name), ("ty", ofOption .str p.typeName),
    ("default", ofOption Literal.toPack p.default)]

def FieldDef.toPack (f : FieldDef) : Pack :=
  record [("name", .str f.name), ("is_static", .bool f.isStatic),
    ("init", ofOption Image.Expr.toPack f.init), ("line", ofNat f.line)]

def MethodDef.toPack (m : MethodDef) : Pack :=
  record [("name", .str m.name), ("is_static", .bool m.isStatic), ("is_async", .bool m.isAsync),
    ("is_extern", .bool m.isNative), ("params", ofList ParamDef.toPack m.params),
    ("return_type", ofOption .str m.returns), ("shape", .str m.shape.name),
    ("locals", ofNat m.slots), ("body", ofOption (ofList Image.Stmt.toPack) m.body),
    ("line", ofNat m.line)]

def TypeDef.toPack (t : TypeDef) : Pack :=
  record [("name", .str t.name), ("kind", .str t.kind.name), ("is_abstract", .bool t.isAbstract),
    ("is_static", .bool t.isStatic), ("generics", ofList .str t.generics),
    ("base", ofOption TypeRef.toPack t.base),
    ("capabilities", ofList TypeRef.toPack t.capabilities),
    ("fields", ofList FieldDef.toPack t.fields), ("methods", ofList MethodDef.toPack t.methods),
    ("file", .str t.file)]

def Image.toPack (i : Image) : Pack :=
  record [("format_version", ofNat i.version), ("name", .str i.name), ("kind", .str i.kind.name),
    ("references", ofList .str i.references), ("types", ofList TypeDef.toPack i.types)]

/-- The bytes of an image. -/
def Image.encode (i : Image) : List UInt8 :=
  i.toPack.write

/-! ## Reading -/

def OutputKind.ofPack? (p : Pack) : Option OutputKind := do
  match ← bare? ["Library", "Executable"] p with
  | 0 => return library
  | _ => return executable

def ClassKind.ofPack? (p : Pack) : Option ClassKind := do
  match ← bare? ["Class", "Capability"] p with
  | 0 => return class_
  | _ => return capability

def ReturnShape.ofPack? (p : Pack) : Option ReturnShape := do
  match ← bare? ["Void", "Awaitable", "Value"] p with
  | 0 => return void
  | 1 => return awaitable
  | _ => return value

def UnaryOp.ofPack? (p : Pack) : Option UnaryOp := do
  match ← bare? ["Not", "Neg"] p with
  | 0 => return not
  | _ => return neg

def BinaryOp.all : List BinaryOp :=
  [or, and, eq, notEq, lt, ltEq, gt, gtEq, add, sub, mul, div, rem]

def BinaryOp.ofPack? (p : Pack) : Option BinaryOp := do
  all[← bare? (all.map name) p]?

def Literal.ofPack? (p : Pack) : Option Literal := do
  match ← variant? ["Null", "Bool", "Int", "Float", "Str"] p with
  | (0, none) => return null
  | (0, some .nil) => return null
  | (1, some v) => return bool (← v.toBool?)
  | (2, some v) => return int (← v.toInt64?)
  | (3, some v) => return float (← v.toFloat?)
  | (4, some v) => return str (← v.toString?)
  | _ => failure

def TypeRef.ofPack? (p : Pack) : Option TypeRef := do
  match ← fields? ["library", "name"] p with
  | [library, name] =>
    return { library := ← optional toString? library, name := ← required toString? name }
  | _ => failure

namespace Image

/-- Reads an expression that nests at most `depth` deep. -/
def Expr.ofPack? : Nat → Pack → Option Expr
  | 0, _ => none
  | depth + 1, p => do
    let expr := Expr.ofPack? depth
    match ← variant? ["Const", "Local", "SelfRef", "Type", "List", "New", "Field", "StaticField",
      "Call", "StaticCall", "Index", "Unary", "Binary", "Await"] p with
    | (0, some v) => return const (← Literal.ofPack? v)
    | (1, some v) => return slot (← v.toNat32?)
    | (2, none) => return self
    | (2, some .nil) => return self
    | (3, some v) => return type (← TypeRef.ofPack? v)
    | (4, some v) => return list (← v.toList? expr)
    | (5, some v) =>
      match ← fields? ["ty", "args"] v with
      | [t, args] => return new (← required TypeRef.ofPack? t) (← required (toList? expr) args)
      | _ => failure
    | (6, some v) =>
      match ← fields? ["target", "name"] v with
      | [target, name] => return field (← required expr target) (← required toString? name)
      | _ => failure
    | (7, some v) =>
      match ← fields? ["owner", "name"] v with
      | [owner, name] =>
        return staticField (← required TypeRef.ofPack? owner) (← required toString? name)
      | _ => failure
    | (8, some v) =>
      match ← fields? ["target", "method", "args"] v with
      | [target, method, args] =>
        return call (← required expr target) (← required toString? method)
          (← required (toList? expr) args)
      | _ => failure
    | (9, some v) =>
      match ← fields? ["owner", "method", "args"] v with
      | [owner, method, args] =>
        return staticCall (← required TypeRef.ofPack? owner) (← required toString? method)
          (← required (toList? expr) args)
      | _ => failure
    | (10, some v) =>
      match ← fields? ["target", "index"] v with
      | [target, i] => return index (← required expr target) (← required expr i)
      | _ => failure
    | (11, some v) =>
      match ← fields? ["op", "operand"] v with
      | [op, operand] => return unary (← required UnaryOp.ofPack? op) (← required expr operand)
      | _ => failure
    | (12, some v) =>
      match ← fields? ["op", "lhs", "rhs"] v with
      | [op, lhs, rhs] =>
        return binary (← required BinaryOp.ofPack? op) (← required expr lhs) (← required expr rhs)
      | _ => failure
    | (13, some v) => return await (← expr v)
    | _ => failure

/-- Reads a place whose expressions nest at most `depth` deep. -/
def Place.ofPack? (depth : Nat) (p : Pack) : Option Place := do
  let expr := Expr.ofPack? depth
  match ← variant? ["Local", "Field", "StaticField", "Index"] p with
  | (0, some v) => return slot (← v.toNat32?)
  | (1, some v) =>
    match ← fields? ["target", "name"] v with
    | [target, name] => return field (← required expr target) (← required toString? name)
    | _ => failure
  | (2, some v) =>
    match ← fields? ["owner", "name"] v with
    | [owner, name] =>
      return staticField (← required TypeRef.ofPack? owner) (← required toString? name)
    | _ => failure
  | (3, some v) =>
    match ← fields? ["target", "index"] v with
    | [target, i] => return index (← required expr target) (← required expr i)
    | _ => failure
  | _ => failure

/-- Reads a statement that nests at most `depth` deep, expressions in it included. -/
def Stmt.ofPack? : Nat → Pack → Option Stmt
  | 0, _ => none
  | depth + 1, p => do
    let e := Expr.ofPack? depth
    let body := toList? (Stmt.ofPack? depth)
    match ← fields? ["line", "kind"] p with
    | [line, kind] =>
      let l ← required toNat32? line
      match ← required (variant? ["Local", "Assign", "Expr", "If", "While", "ForEach", "Return",
        "Throw", "Try", "Break", "Continue", "Block"]) kind with
      | (0, some v) =>
        match ← fields? ["slot", "init"] v with
        | [slot, init] => return declare l (← required toNat32? slot) (← optional e init)
        | _ => failure
      | (1, some v) =>
        match ← fields? ["place", "value"] v with
        | [place, value] =>
          return assign l (← required (Place.ofPack? depth) place) (← required e value)
        | _ => failure
      | (2, some v) => return expr l (← e v)
      | (3, some v) =>
        match ← fields? ["cond", "then_body", "else_body"] v with
        | [c, a, b] => return cond l (← required e c) (← required body a) (← required body b)
        | _ => failure
      | (4, some v) =>
        match ← fields? ["cond", "body"] v with
        | [c, b] => return whileLoop l (← required e c) (← required body b)
        | _ => failure
      | (5, some v) =>
        match ← fields? ["slot", "iterable", "body"] v with
        | [slot, iterable, b] =>
          return forLoop l (← required toNat32? slot) (← required e iterable) (← required body b)
        | _ => failure
      | (6, some v) => return ret l (← optional e (some v))
      | (7, some v) => return throw l (← e v)
      | (8, some v) =>
        match ← fields? ["body", "slot", "handler"] v with
        | [b, slot, handler] =>
          return tryCatch l (← required body b) (← optional toNat32? slot)
            (← required body handler)
        | _ => failure
      | (9, none) => return breakLoop l
      | (9, some .nil) => return breakLoop l
      | (10, none) => return continueLoop l
      | (10, some .nil) => return continueLoop l
      | (11, some v) => return block l (← body v)
      | _ => failure
    | _ => failure

end Image

def ParamDef.ofPack? (p : Pack) : Option ParamDef := do
  match ← fields? ["name", "ty", "default"] p with
  | [name, typeName, default] =>
    return {
      name := ← required toString? name
      typeName := ← optional toString? typeName
      default := ← optional Literal.ofPack? default }
  | _ => failure

def FieldDef.ofPack? (depth : Nat) (p : Pack) : Option FieldDef := do
  match ← fields? ["name", "is_static", "init", "line"] p with
  | [name, isStatic, init, line] =>
    return {
      name := ← required toString? name
      isStatic := ← required toBool? isStatic
      init := ← optional (Image.Expr.ofPack? depth) init
      line := ← required toNat32? line }
  | _ => failure

def MethodDef.ofPack? (depth : Nat) (p : Pack) : Option MethodDef := do
  match ← fields? ["name", "is_static", "is_async", "is_extern", "params", "return_type", "shape",
    "locals", "body", "line"] p with
  | [name, isStatic, isAsync, isNative, params, returns, shape, slots, body, line] =>
    return {
      name := ← required toString? name
      isStatic := ← required toBool? isStatic
      isAsync := ← required toBool? isAsync
      isNative := ← required toBool? isNative
      params := ← required (toList? ParamDef.ofPack?) params
      returns := ← optional toString? returns
      shape := ← required ReturnShape.ofPack? shape
      slots := ← required toNat32? slots
      body := ← optional (toList? (Image.Stmt.ofPack? depth)) body
      line := ← required toNat32? line }
  | _ => failure

def TypeDef.ofPack? (depth : Nat) (p : Pack) : Option TypeDef := do
  match ← fields? ["name", "kind", "is_abstract", "is_static", "generics", "base", "capabilities",
    "fields", "methods", "file"] p with
  | [name, kind, isAbstract, isStatic, generics, base, capabilities, fields, methods, file] =>
    return {
      name := ← required toString? name
      kind := ← required ClassKind.ofPack? kind
      isAbstract := ← required toBool? isAbstract
      isStatic := ← required toBool? isStatic
      generics := ← required (toList? toString?) generics
      base := ← optional TypeRef.ofPack? base
      capabilities := ← required (toList? TypeRef.ofPack?) capabilities
      fields := ← required (toList? (FieldDef.ofPack? depth)) fields
      methods := ← required (toList? (MethodDef.ofPack? depth)) methods
      file := ← required toString? file }
  | _ => failure

/-- Reads an image in which expressions and statements nest at most `depth` deep. -/
def Image.ofPack? (depth : Nat) (p : Pack) : Option Image := do
  match ← fields? ["format_version", "name", "kind", "references", "types"] p with
  | [version, name, kind, references, types] =>
    return {
      version := ← required toNat32? version
      name := ← required toString? name
      kind := ← required OutputKind.ofPack? kind
      references := ← required (toList? toString?) references
      types := ← required (toList? (TypeDef.ofPack? depth)) types }
  | _ => failure

/-- The image that bytes write. It cannot nest deeper than it has bytes. -/
def Image.decode (bytes : List UInt8) : Except DecodeError Image :=
  match Pack.ofBytes bytes with
  | .error e => .error (.format (.unread e))
  | .ok p =>
    match Image.ofPack? bytes.length p with
    | none => .error (.format .shape)
    | some i => if i.version = currentVersion then .ok i else .error (.version i.version)

theorem Image.decode_eq {bytes : List UInt8} {p : Pack} {i : Image}
    (hp : Pack.ofBytes bytes = .ok p) (hi : ofPack? bytes.length p = some i) :
    decode bytes = if i.version = currentVersion then .ok i else .error (.version i.version) := by
  rw [decode, hp]
  dsimp only
  rw [hi]

theorem Image.of_decode {bytes : List UInt8} {p : Pack} {i : Image}
    (hp : Pack.ofBytes bytes = .ok p) (h : decode bytes = .ok i) :
    ofPack? bytes.length p = some i := by
  rw [decode, hp] at h
  dsimp only at h
  split at h
  · cases h
  · next j hj =>
    split at h <;> cases h
    exact hj

theorem Image.decode_eq_error {bytes : List UInt8} {e : Pack.ReadError}
    (h : Pack.ofBytes bytes = .error e) : decode bytes = .error (.format (.unread e)) := by
  rw [decode, h]

/-- Whether decoding the bytes of an image gives an image with the same bytes. -/
def Image.roundTrips (i : Image) : Bool :=
  match decode i.encode with
  | .ok j => j.encode == i.encode
  | .error _ => false

end GenLang
