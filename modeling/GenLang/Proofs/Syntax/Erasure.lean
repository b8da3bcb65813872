import GenLang.Syntax.Tree

/-!
# Trees without places

Two sources with the same program differ in where its parts stand. `erase` puts every part of a
tree at the same place, so that what is left to compare is the program: types and their modifiers,
members in order, statements, operators and values.
-/

namespace GenLang

open Text

def Ident.erase (i : Ident) : Ident :=
  ⟨i.name, default⟩

mutual

def Expr.erase : Expr → Expr
  | .lit _ l => .lit default l
  | .name _ n => .name default n
  | .self _ => .self default
  | .list _ es => .list default (Expr.eraseAll es)
  | .new _ i es => .new default i.erase (Expr.eraseAll es)
  | .member _ e i => .member default e.erase i.erase
  | .call _ e es => .call default e.erase (Expr.eraseAll es)
  | .index _ e i => .index default e.erase i.erase
  | .unary _ op e => .unary default op e.erase
  | .binary _ op a b => .binary default op a.erase b.erase
  | .await _ e => .await default e.erase

def Expr.eraseAll : List Expr → List Expr
  | [] => []
  | e :: es => e.erase :: Expr.eraseAll es

end

theorem Expr.eraseAll_eq_map (es : List Expr) : Expr.eraseAll es = es.map Expr.erase := by
  induction es with
  | nil => rfl
  | cons e es ih => rw [Expr.eraseAll, ih, List.map_cons]

mutual

def Stmt.erase : Stmt → Stmt
  | .declare _ i e => .declare default i.erase (e.map Expr.erase)
  | .assign _ t e => .assign default t.erase e.erase
  | .expr _ e => .expr default e.erase
  | .cond c => .cond c.erase
  | .whileLoop _ e b => .whileLoop default e.erase b.erase
  | .forLoop _ i e b => .forLoop default i.erase e.erase b.erase
  | .ret _ e => .ret default (e.map Expr.erase)
  | .throw _ e => .throw default e.erase
  | .tryCatch _ b i h => .tryCatch default b.erase (i.map Ident.erase) h.erase
  | .breakLoop _ => .breakLoop default
  | .continueLoop _ => .continueLoop default
  | .nested b => .nested b.erase

def Block.erase : Block → Block
  | .mk _ ss => .mk default (Stmt.eraseAll ss)

def Conditional.erase : Conditional → Conditional
  | .mk _ e b a => .mk default e.erase b.erase a.erase

def Alternative.erase : Alternative → Alternative
  | .none => .none
  | .block b => .block b.erase
  | .chain c => .chain c.erase

def Stmt.eraseAll : List Stmt → List Stmt
  | [] => []
  | s :: ss => s.erase :: Stmt.eraseAll ss

end

theorem Stmt.eraseAll_eq_map (ss : List Stmt) : Stmt.eraseAll ss = ss.map Stmt.erase := by
  induction ss with
  | nil => rfl
  | cons s ss ih => rw [Stmt.eraseAll, ih, List.map_cons]

def Param.erase (p : Param) : Param :=
  ⟨p.name.erase, p.typeName.map Ident.erase, p.default⟩

def FieldDecl.erase (f : FieldDecl) : FieldDecl :=
  { f with name := f.name.erase, init := f.init.map Expr.erase, span := default }

def MethodDecl.erase (m : MethodDecl) : MethodDecl :=
  { m with
    name := m.name.erase
    params := m.params.map Param.erase
    returns := m.returns.map Ident.erase
    body := m.body.map Block.erase
    span := default }

def Member.erase : Member → Member
  | .field f => .field f.erase
  | .method m => .method m.erase

def TypeDecl.erase (t : TypeDecl) : TypeDecl :=
  { t with
    name := t.name.erase
    generics := t.generics.map Ident.erase
    bases := t.bases.map Ident.erase
    members := t.members.map Member.erase
    span := default }

end GenLang
