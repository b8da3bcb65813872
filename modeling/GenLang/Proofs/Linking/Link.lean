import GenLang.Image

/-!
# What code relies on

The links of a module are what its compilation resolved and a run looks up again: types that it
refers to, static methods with the number of arguments they are given, and static fields. They stand
at the sites of its code, where it makes an object, calls a static method, uses a static field or
has a type as a value.
-/

namespace GenLang

inductive Link where
  | type (type : TypeRef)
  /-- A static method of a type, called with so many arguments. -/
  | call (owner : TypeRef) (method : String) (count : Nat)
  | field (owner : TypeRef) (name : String)
deriving DecidableEq, Repr

/-- A place in code that names a class, with the number of arguments that are given there. -/
inductive Site where
  | type (type : TypeRef)
  | new (type : TypeRef) (count : Nat)
  | call (owner : TypeRef) (method : String) (count : Nat)
  | field (owner : TypeRef) (name : String)
deriving DecidableEq, Repr

def Site.links : Site → List Link
  | type t => [.type t]
  | new t _ => [.type t]
  | call t m count => [.type t, .call t m count]
  | field t name => [.type t, .field t name]

namespace Image

mutual

def Expr.links : Expr → List Link
  | const _ | slot _ | self => []
  | type t => [.type t]
  | list items => Expr.linksAll items
  | new t args => .type t :: Expr.linksAll args
  | field e _ => e.links
  | staticField t name => [.type t, .field t name]
  | call e _ args => e.links ++ Expr.linksAll args
  | staticCall t m args => .type t :: .call t m args.length :: Expr.linksAll args
  | index e i => e.links ++ i.links
  | unary _ e => e.links
  | binary _ a b => a.links ++ b.links
  | await e => e.links

def Expr.linksAll : List Expr → List Link
  | [] => []
  | e :: es => e.links ++ Expr.linksAll es

end

mutual

def Expr.sites : Expr → List Site
  | const _ | slot _ | self => []
  | type t => [.type t]
  | list items => Expr.sitesAll items
  | new t args => .new t args.length :: Expr.sitesAll args
  | field e _ => e.sites
  | staticField t name => [.field t name]
  | call e _ args => e.sites ++ Expr.sitesAll args
  | staticCall t m args => .call t m args.length :: Expr.sitesAll args
  | index e i => e.sites ++ i.sites
  | unary _ e => e.sites
  | binary _ a b => a.sites ++ b.sites
  | await e => e.sites

def Expr.sitesAll : List Expr → List Site
  | [] => []
  | e :: es => e.sites ++ Expr.sitesAll es

end

theorem Expr.sitesAll_eq_flatMap (es : List Expr) : Expr.sitesAll es = es.flatMap Expr.sites := by
  induction es with
  | nil => rw [Expr.sitesAll, List.flatMap_nil]
  | cons e es ih => rw [Expr.sitesAll, ih, List.flatMap_cons]

def Place.links : Place → List Link
  | slot _ => []
  | field e _ => e.links
  | staticField t name => [.type t, .field t name]
  | index e i => e.links ++ i.links

def Place.sites : Place → List Site
  | slot _ => []
  | field e _ => e.sites
  | staticField t name => [.field t name]
  | index e i => e.sites ++ i.sites

mutual

def Stmt.links : Stmt → List Link
  | declare _ _ init => init.toList.flatMap Expr.links
  | assign _ place e => place.links ++ e.links
  | expr _ e => e.links
  | cond _ c a b => c.links ++ Stmt.linksAll a ++ Stmt.linksAll b
  | whileLoop _ c b => c.links ++ Stmt.linksAll b
  | forLoop _ _ e b => e.links ++ Stmt.linksAll b
  | ret _ e => e.toList.flatMap Expr.links
  | throw _ e => e.links
  | tryCatch _ b _ h => Stmt.linksAll b ++ Stmt.linksAll h
  | breakLoop _ | continueLoop _ => []
  | block _ b => Stmt.linksAll b

def Stmt.linksAll : List Stmt → List Link
  | [] => []
  | s :: ss => s.links ++ Stmt.linksAll ss

end

mutual

def Stmt.sites : Stmt → List Site
  | declare _ _ init => init.toList.flatMap Expr.sites
  | assign _ place e => place.sites ++ e.sites
  | expr _ e => e.sites
  | cond _ c a b => c.sites ++ Stmt.sitesAll a ++ Stmt.sitesAll b
  | whileLoop _ c b => c.sites ++ Stmt.sitesAll b
  | forLoop _ _ e b => e.sites ++ Stmt.sitesAll b
  | ret _ e => e.toList.flatMap Expr.sites
  | throw _ e => e.sites
  | tryCatch _ b _ h => Stmt.sitesAll b ++ Stmt.sitesAll h
  | breakLoop _ | continueLoop _ => []
  | block _ b => Stmt.sitesAll b

def Stmt.sitesAll : List Stmt → List Site
  | [] => []
  | s :: ss => s.sites ++ Stmt.sitesAll ss

end

end Image

def FieldDef.links (f : FieldDef) : List Link :=
  f.init.toList.flatMap Image.Expr.links

def FieldDef.sites (f : FieldDef) : List Site :=
  f.init.toList.flatMap Image.Expr.sites

def MethodDef.links (m : MethodDef) : List Link :=
  m.body.toList.flatMap Image.Stmt.linksAll

def MethodDef.sites (m : MethodDef) : List Site :=
  m.body.toList.flatMap Image.Stmt.sitesAll

def TypeDef.links (t : TypeDef) : List Link :=
  (t.base.toList ++ t.capabilities).map .type ++ t.fields.flatMap (·.links) ++
    t.methods.flatMap (·.links)

/-- Sites of its code. -/
def TypeDef.sites (t : TypeDef) : List Site :=
  t.fields.flatMap (·.sites) ++ t.methods.flatMap (·.sites)

/-! ## Links stand at sites -/

namespace Image

mutual

theorem Expr.links_eq : ∀ e : Expr, e.links = e.sites.flatMap Site.links
  | .const _ | .slot _ | .self => rfl
  | .type _ | .staticField _ _ => rfl
  | .list items => by
    rw [Expr.links, Expr.sites, Expr.linksAll_eq items]
  | .new _ args => by
    rw [Expr.links, Expr.sites, Expr.linksAll_eq args]
    rfl
  | .staticCall _ _ args => by
    rw [Expr.links, Expr.sites, Expr.linksAll_eq args]
    rfl
  | .call e _ args => by
    rw [Expr.links, Expr.sites, Expr.links_eq e, Expr.linksAll_eq args, List.flatMap_append]
  | .index a b | .binary _ a b => by
    rw [Expr.links, Expr.sites, Expr.links_eq a, Expr.links_eq b, List.flatMap_append]
  | .field e _ | .unary _ e | .await e => by
    rw [Expr.links, Expr.sites, Expr.links_eq e]

theorem Expr.linksAll_eq :
    ∀ es : List Expr, Expr.linksAll es = (Expr.sitesAll es).flatMap Site.links
  | [] => rfl
  | e :: es => by
    rw [Expr.linksAll, Expr.sitesAll, Expr.links_eq e, Expr.linksAll_eq es, List.flatMap_append]

end

theorem Expr.links_option_eq (e : Option Expr) :
    e.toList.flatMap Expr.links = (e.toList.flatMap Expr.sites).flatMap Site.links := by
  rw [List.flatMap_assoc, funext Expr.links_eq]

theorem Place.links_eq (p : Place) : p.links = p.sites.flatMap Site.links := by
  cases p with
  | slot _ | staticField _ _ => rfl
  | field e _ => exact e.links_eq
  | index e i => rw [Place.links, Place.sites, e.links_eq, i.links_eq, List.flatMap_append]

mutual

theorem Stmt.links_eq : ∀ s : Stmt, s.links = s.sites.flatMap Site.links
  | .declare _ _ e | .ret _ e => by
    rw [Stmt.links, Stmt.sites, Expr.links_option_eq]
  | .assign _ p e => by
    rw [Stmt.links, Stmt.sites, p.links_eq, e.links_eq, List.flatMap_append]
  | .expr _ e | .throw _ e => by
    rw [Stmt.links, Stmt.sites, e.links_eq]
  | .cond _ c a b => by
    rw [Stmt.links, Stmt.sites, c.links_eq, Stmt.linksAll_eq a, Stmt.linksAll_eq b,
      List.flatMap_append, List.flatMap_append]
  | .whileLoop _ e b | .forLoop _ _ e b => by
    rw [Stmt.links, Stmt.sites, e.links_eq, Stmt.linksAll_eq b, List.flatMap_append]
  | .tryCatch _ b _ h => by
    rw [Stmt.links, Stmt.sites, Stmt.linksAll_eq b, Stmt.linksAll_eq h, List.flatMap_append]
  | .breakLoop _ | .continueLoop _ => rfl
  | .block _ b => by
    rw [Stmt.links, Stmt.sites, Stmt.linksAll_eq b]

theorem Stmt.linksAll_eq :
    ∀ ss : List Stmt, Stmt.linksAll ss = (Stmt.sitesAll ss).flatMap Site.links
  | [] => rfl
  | s :: ss => by
    rw [Stmt.linksAll, Stmt.sitesAll, Stmt.links_eq s, Stmt.linksAll_eq ss, List.flatMap_append]

end

end Image

theorem FieldDef.links_eq (f : FieldDef) : f.links = f.sites.flatMap Site.links :=
  Image.Expr.links_option_eq f.init

theorem MethodDef.links_eq (m : MethodDef) : m.links = m.sites.flatMap Site.links := by
  rw [links, sites, List.flatMap_assoc, funext Image.Stmt.linksAll_eq]

/-- What a type relies on: what it is based on and the links at its sites. -/
theorem TypeDef.links_eq (t : TypeDef) :
    t.links = (t.base.toList ++ t.capabilities).map .type ++ t.sites.flatMap Site.links := by
  rw [links, sites, List.flatMap_append, List.flatMap_assoc, List.flatMap_assoc, List.append_assoc,
    funext FieldDef.links_eq, funext MethodDef.links_eq]

end GenLang
