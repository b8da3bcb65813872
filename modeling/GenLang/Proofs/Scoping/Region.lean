import GenLang.Image

/-!
# Where locals may be used

A local is introduced once and governs a region of the code: a parameter the whole body, a declared
local the statements behind it in its block, the local of a loop the body of the loop, and that of a
handler the handler. What else a place in the code allows is whether a loop encloses it and whether
there is a receiver.
-/

namespace GenLang

/-- What may be used at a place in the code. -/
structure Region where
  slots : List Nat
  inLoop : Bool
  hasSelf : Bool

namespace Region

/-- With one more local. -/
def extend (r : Region) (slot : Nat) : Region :=
  { r with slots := slot :: r.slots }

/-- Inside a loop. -/
def loop (r : Region) : Region :=
  { r with inLoop := true }

end Region

namespace Image

mutual

/-- An expression uses only what its place allows. -/
def Expr.WellScoped (r : Region) : Expr → Prop
  | const _ | type _ | staticField _ _ => True
  | slot n => n ∈ r.slots
  | self => r.hasSelf
  | list items => Expr.WellScopedAll r items
  | new _ args => Expr.WellScopedAll r args
  | field e _ => e.WellScoped r
  | call e _ args => e.WellScoped r ∧ Expr.WellScopedAll r args
  | staticCall _ _ args => Expr.WellScopedAll r args
  | index e i => e.WellScoped r ∧ i.WellScoped r
  | unary _ e => e.WellScoped r
  | binary _ a b => a.WellScoped r ∧ b.WellScoped r
  | await e => e.WellScoped r

def Expr.WellScopedAll (r : Region) : List Expr → Prop
  | [] => True
  | e :: es => e.WellScoped r ∧ Expr.WellScopedAll r es

end

def Place.WellScoped (r : Region) : Place → Prop
  | slot n => n ∈ r.slots
  | field e _ => e.WellScoped r
  | staticField _ _ => True
  | index e i => e.WellScoped r ∧ i.WellScoped r

/-- The region of the statements behind one in its block. -/
def Stmt.after (r : Region) : Stmt → Region
  | declare _ slot _ => r.extend slot
  | _ => r

mutual

/-- A statement and all that is nested in it use only what their places allow. -/
def Stmt.WellScoped (r : Region) : Stmt → Prop
  | declare _ _ init => ∀ e ∈ init, e.WellScoped r
  | assign _ place e => place.WellScoped r ∧ e.WellScoped r
  | expr _ e | throw _ e => e.WellScoped r
  | cond _ c a b => c.WellScoped r ∧ Stmt.WellScopedAll r a ∧ Stmt.WellScopedAll r b
  | whileLoop _ c b => c.WellScoped r ∧ Stmt.WellScopedAll r.loop b
  | forLoop _ slot e b => e.WellScoped r ∧ Stmt.WellScopedAll (r.extend slot).loop b
  | ret _ value => ∀ e ∈ value, e.WellScoped r
  | tryCatch _ b slot h =>
    Stmt.WellScopedAll r b ∧ Stmt.WellScopedAll (slot.elim r r.extend) h
  | breakLoop _ | continueLoop _ => r.inLoop
  | block _ b => Stmt.WellScopedAll r b

def Stmt.WellScopedAll (r : Region) : List Stmt → Prop
  | [] => True
  | s :: ss => s.WellScoped r ∧ Stmt.WellScopedAll (s.after r) ss

end

mutual

/-- The slots that a statement and all that is nested in it introduce, in the order of the text. -/
def Stmt.introduced : Stmt → List Nat
  | declare _ slot _ => [slot]
  | assign _ _ _ | expr _ _ | throw _ _ | ret _ _ | breakLoop _ | continueLoop _ => []
  | cond _ _ a b => Stmt.introducedAll a ++ Stmt.introducedAll b
  | whileLoop _ _ b | block _ b => Stmt.introducedAll b
  | forLoop _ slot _ b => slot :: Stmt.introducedAll b
  | tryCatch _ b slot h => Stmt.introducedAll b ++ slot.toList ++ Stmt.introducedAll h

def Stmt.introducedAll : List Stmt → List Nat
  | [] => []
  | s :: ss => s.introduced ++ Stmt.introducedAll ss

end

end Image

/-- The locals of a method are its parameters and what its body introduces, each slot once; and the
body uses them only where they are in scope, jumps only inside loops, and has a receiver only if the
method has one. -/
structure MethodDef.WellScoped (m : MethodDef) : Prop where
  introduced : List.range m.params.length ++ m.body.elim [] Image.Stmt.introducedAll =
    List.range m.slots
  body : ∀ b ∈ m.body, Image.Stmt.WellScopedAll
    ⟨List.range m.params.length, false, !m.isStatic⟩ b

/-- The initial value of a field uses no local, and a receiver only if the field has one. -/
def FieldDef.WellScoped (f : FieldDef) : Prop :=
  ∀ e ∈ f.init, e.WellScoped ⟨[], false, !f.isStatic⟩

end GenLang
