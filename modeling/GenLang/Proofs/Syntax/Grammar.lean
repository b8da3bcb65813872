import GenLang.Syntax.Parse

/-!
# The grammar

The language of Gen as rules over tokens. A rule tells which tokens a phrase has and which tree they
stand for, places included; nothing in it says how a phrase is found.

Expressions are ranked: levels 1 to 6 are the binary operators, the loosest first, level 7 is
prefix operators, level 8 what may stand behind an expression, and level 9 what no operator reaches
into. A phrase of one level is a phrase of every looser one, so that an expression is a phrase of
level 1. The left operand of a binary operator has the level of the operator and the right one is
tighter, which is what groups a chain to the left.
-/

namespace GenLang

open Text

namespace Grammar

/-- Which tokens stand for which value. -/
abbrev Phrase (α : Type) := List Lexeme → α → Prop

/-! ## Pieces of rules -/

abbrev kw (k : Keyword) (s : Span) : Lexeme := ⟨.keyword k, s⟩

abbrev sym (s : Symbol) (place : Span) : Lexeme := ⟨.symbol s, place⟩

abbrev word (i : Ident) : Lexeme := ⟨.ident i.name, i.span⟩

section

variable {α : Type} (P : Phrase α)

/-- A phrase or nothing. -/
inductive Optional : Phrase (Option α)
  | none : Optional [] none
  | some {ts a} (item : P ts a) : Optional ts (some a)

/-- Phrases one behind the other. -/
inductive Many : Phrase (List α)
  | nil : Many [] []
  | cons {ts us a as} (first : P ts a) (others : Many us as) : Many (ts ++ us) (a :: as)

/-- Phrases with commas between them, perhaps none; a comma behind the last one is allowed. -/
inductive CommaList : Phrase (List α)
  | nil : CommaList [] []
  | one {ts a} (item : P ts a) : CommaList ts [a]
  | cons {ts c us a as} (first : P ts a) (others : CommaList us as) :
      CommaList (ts ++ sym .comma c :: us) (a :: as)

/-- At least one phrase, with commas between them only. -/
inductive CommaList1 : Phrase (List α)
  | one {ts a} (item : P ts a) : CommaList1 ts [a]
  | cons {ts c us a as} (first : P ts a) (others : CommaList1 us as) :
      CommaList1 (ts ++ sym .comma c :: us) (a :: as)

/-- A phrase behind a symbol. -/
inductive After (s : Symbol) : Phrase α
  | mk {place ts a} (item : P ts a) : After s (sym s place :: ts) a

end

inductive IsName : Phrase Ident
  | mk (i : Ident) : IsName [word i] i

/-! ## Expressions -/

/-- The value of a literal token. An integer has one only if it fits in 64 bits. -/
inductive LiteralOf : Token → Literal → Prop
  | int {text} (fits : Decimal.natOfDigits text.toList ≤ maxInt) :
      LiteralOf (.int text) (.int (Int64.ofNat (Decimal.natOfDigits text.toList)))
  | float {text} : LiteralOf (.float text) (.float (Decimal.read text))
  | str {text} :
      LiteralOf (.str text) (.str (String.ofList (unescape (text.toList.drop 1).dropLast)))
  | verbatim {text} :
      LiteralOf (.verbatim text) (.str (String.ofList (undouble (text.toList.drop 2).dropLast)))
  | true_ : LiteralOf (.keyword .true_) (.bool true)
  | false_ : LiteralOf (.keyword .false_) (.bool false)
  | null : LiteralOf (.keyword .null) .null

/-- Expressions of a level. -/
inductive IsExpr : Nat → Phrase Expr
  | lit {t l} (value : LiteralOf t.token l) : IsExpr 9 [t] (.lit t.span l)
  | name (i : Ident) : IsExpr 9 [word i] (.name i.span i.name)
  | self (s : Span) : IsExpr 9 [kw .self_ s] (.self s)
  | paren {o c ts e} (inner : IsExpr 1 ts e) :
      IsExpr 9 (sym .leftParen o :: ts ++ [sym .rightParen c]) e
  | list {o c ts es} (items : CommaList (IsExpr 1) ts es) :
      IsExpr 9 (sym .leftBracket o :: ts ++ [sym .rightBracket c]) (.list (o.merge c) es)
  | new {n i o c ts es} (args : CommaList (IsExpr 1) ts es) :
      IsExpr 9 (kw .new_ n :: word i :: sym .leftParen o :: ts ++ [sym .rightParen c])
        (.new (n.merge c) i es)
  | member {ts e d i} (target : IsExpr 8 ts e) :
      IsExpr 8 (ts ++ [sym .dot d, word i]) (.member (e.span.merge i.span) e i)
  | call {ts e o us es c} (callee : IsExpr 8 ts e) (args : CommaList (IsExpr 1) us es) :
      IsExpr 8 (ts ++ sym .leftParen o :: us ++ [sym .rightParen c])
        (.call (e.span.merge c) e es)
  | index {ts e o us i c} (target : IsExpr 8 ts e) (position : IsExpr 1 us i) :
      IsExpr 8 (ts ++ sym .leftBracket o :: us ++ [sym .rightBracket c])
        (.index (e.span.merge c) e i)
  | not {s ts e} (operand : IsExpr 7 ts e) :
      IsExpr 7 (sym .bang s :: ts) (.unary (s.merge e.span) .not e)
  | neg {s ts e} (operand : IsExpr 7 ts e) :
      IsExpr 7 (sym .minus s :: ts) (.unary (s.merge e.span) .neg e)
  | await {s ts e} (operand : IsExpr 7 ts e) :
      IsExpr 7 (kw .await s :: ts) (.await (s.merge e.span) e)
  | binary {op ts us s a b} (lhs : IsExpr op.precedence ts a)
      (rhs : IsExpr (op.precedence + 1) us b) :
      IsExpr op.precedence (ts ++ sym op.symbol s :: us)
        (.binary (a.span.merge b.span) op a b)
  | tighter {p ts e} (below : p < 9) (inner : IsExpr (p + 1) ts e) : IsExpr p ts e

/-- Induction on how an expression is derived, with what holds of the items of a list said of each
of them. -/
@[elab_as_elim]
theorem IsExpr.induct {M : ∀ p ts e, IsExpr p ts e → Prop}
    (lit : ∀ {t l} (value : LiteralOf t.token l), M 9 [t] _ (.lit value))
    (name : ∀ i, M 9 [word i] _ (.name i))
    (self : ∀ s, M 9 [kw .self_ s] _ (.self s))
    (paren : ∀ {o c ts e} (inner : IsExpr 1 ts e), M 1 ts e inner →
      M 9 _ _ (.paren (o := o) (c := c) inner))
    (list : ∀ {o c ts es} (items : CommaList (IsExpr 1) ts es),
      CommaList (fun us e => ∃ h, M 1 us e h) ts es → M 9 _ _ (.list (o := o) (c := c) items))
    (new : ∀ {n i o c ts es} (args : CommaList (IsExpr 1) ts es),
      CommaList (fun us e => ∃ h, M 1 us e h) ts es →
        M 9 _ _ (.new (n := n) (i := i) (o := o) (c := c) args))
    (member : ∀ {ts e d i} (target : IsExpr 8 ts e), M 8 ts e target →
      M 8 _ _ (.member (d := d) (i := i) target))
    (call : ∀ {ts e o us es c} (callee : IsExpr 8 ts e) (args : CommaList (IsExpr 1) us es),
      M 8 ts e callee → CommaList (fun us e => ∃ h, M 1 us e h) us es →
        M 8 _ _ (.call (o := o) (c := c) callee args))
    (index : ∀ {ts e o us i c} (target : IsExpr 8 ts e) (position : IsExpr 1 us i),
      M 8 ts e target → M 1 us i position → M 8 _ _ (.index (o := o) (c := c) target position))
    (not : ∀ {s ts e} (operand : IsExpr 7 ts e), M 7 ts e operand →
      M 7 _ _ (.not (s := s) operand))
    (neg : ∀ {s ts e} (operand : IsExpr 7 ts e), M 7 ts e operand →
      M 7 _ _ (.neg (s := s) operand))
    (await : ∀ {s ts e} (operand : IsExpr 7 ts e), M 7 ts e operand →
      M 7 _ _ (.await (s := s) operand))
    (binary : ∀ {op : BinaryOp} {ts us s a b} (lhs : IsExpr op.precedence ts a)
      (rhs : IsExpr (op.precedence + 1) us b), M _ ts a lhs → M _ us b rhs →
        M _ _ _ (.binary (s := s) lhs rhs))
    (tighter : ∀ {p ts e} (below : p < 9) (inner : IsExpr (p + 1) ts e), M (p + 1) ts e inner →
      M p ts e (.tighter below inner))
    {p ts e} (h : IsExpr p ts e) : M p ts e h :=
  -- lists of arguments carry what is known of each of their items
  @IsExpr.rec (fun p ts e h => M p ts e h)
    (fun ts es _ => CommaList (fun us e => ∃ h, M 1 us e h) ts es)
    lit name self paren list new member call index not neg await binary tighter .nil
    (fun h ih => .one ⟨h, ih⟩) (fun h _ ih ih' => .cons ⟨h, ih⟩ ih') p ts e h

/-- A phrase of one level is a phrase of every looser one. -/
theorem IsExpr.loosen {p q : Nat} {ts : List Lexeme} {e : Expr} (h : IsExpr q ts e)
    (hpq : p ≤ q) (hq : q ≤ 9) : IsExpr p ts e := by
  obtain ⟨k, rfl⟩ := Nat.exists_eq_add_of_le hpq
  clear hpq
  induction k generalizing p with
  | zero => exact h
  | succ k ih =>
    rw [show p + (k + 1) = p + 1 + k by omega] at h hq
    exact .tighter (by omega) (ih h hq)

/-! ## Statements -/

/-- The variable of a handler. -/
inductive IsBinding : Phrase Ident
  | mk {o c} (i : Ident) : IsBinding [sym .leftParen o, word i, sym .rightParen c] i

mutual

inductive IsStmt : Phrase Stmt
  | declare {w i ts e c} (init : Optional (After (IsExpr 1) .assign) ts e) :
      IsStmt (kw .let_ w :: word i :: ts ++ [sym .semicolon c]) (.declare (w.merge c) i e)
  | assign {ts t a us v c} (target : IsExpr 1 ts t) (value : IsExpr 1 us v) :
      IsStmt (ts ++ sym .assign a :: us ++ [sym .semicolon c]) (.assign (t.span.merge c) t v)
  | expr {ts e c} (value : IsExpr 1 ts e) :
      IsStmt (ts ++ [sym .semicolon c]) (.expr (e.span.merge c) e)
  | cond {ts c} (branch : IsConditional ts c) : IsStmt ts (.cond c)
  | whileLoop {w ts e us b} (cond : IsExpr 1 ts e) (body : IsBlock us b) :
      IsStmt (kw .while_ w :: ts ++ us) (.whileLoop (w.merge b.span) e b)
  | forLoop {w i n ts e us b} (iterable : IsExpr 1 ts e) (body : IsBlock us b) :
      IsStmt (kw .for_ w :: word i :: kw .in_ n :: ts ++ us) (.forLoop (w.merge b.span) i e b)
  | ret {w ts e c} (value : Optional (IsExpr 1) ts e) :
      IsStmt (kw .return_ w :: ts ++ [sym .semicolon c]) (.ret (w.merge c) e)
  | throw {w ts e c} (value : IsExpr 1 ts e) :
      IsStmt (kw .throw_ w :: ts ++ [sym .semicolon c]) (.throw (w.merge c) e)
  | tryCatch {w ts b k us i vs h} (body : IsBlock ts b) (binding : Optional IsBinding us i)
      (handler : IsBlock vs h) :
      IsStmt (kw .try_ w :: ts ++ kw .catch_ k :: us ++ vs) (.tryCatch (w.merge h.span) b i h)
  | breakLoop (w c : Span) : IsStmt [kw .break_ w, sym .semicolon c] (.breakLoop (w.merge c))
  | continueLoop (w c : Span) :
      IsStmt [kw .continue_ w, sym .semicolon c] (.continueLoop (w.merge c))
  | nested {ts b} (block : IsBlock ts b) : IsStmt ts (.nested b)

/-- Statements in braces. -/
inductive IsBlock : Phrase Block
  | mk {o ts ss c} (stmts : Many IsStmt ts ss) :
      IsBlock (sym .leftBrace o :: ts ++ [sym .rightBrace c]) (.mk (o.merge c) ss)

inductive IsConditional : Phrase Conditional
  | alone {w ts e us b} (cond : IsExpr 1 ts e) (thenBlock : IsBlock us b) :
      IsConditional (kw .if_ w :: ts ++ us) (.mk (w.merge b.span) e b .none)
  | block {w ts e us b l vs o} (cond : IsExpr 1 ts e) (thenBlock : IsBlock us b)
      (other : IsBlock vs o) :
      IsConditional (kw .if_ w :: ts ++ us ++ kw .else_ l :: vs)
        (.mk (w.merge o.span) e b (.block o))
  | chain {w ts e us b l vs n} (cond : IsExpr 1 ts e) (thenBlock : IsBlock us b)
      (next : IsConditional vs n) :
      IsConditional (kw .if_ w :: ts ++ us ++ kw .else_ l :: vs)
        (.mk (w.merge n.span) e b (.chain n))

end

/-- Induction on how statements, blocks and conditionals are derived, with what holds of the
statements of a block said of each of them. -/
theorem IsStmt.induct {S : Phrase Stmt} {B : Phrase Block} {C : Phrase Conditional}
    (declare : ∀ {w i ts e c}, Optional (After (IsExpr 1) .assign) ts e →
      S (kw .let_ w :: word i :: ts ++ [sym .semicolon c]) (.declare (w.merge c) i e))
    (assign : ∀ {ts t a us v c}, IsExpr 1 ts t → IsExpr 1 us v →
      S (ts ++ sym .assign a :: us ++ [sym .semicolon c]) (.assign (t.span.merge c) t v))
    (expr : ∀ {ts e c}, IsExpr 1 ts e →
      S (ts ++ [sym .semicolon c]) (.expr (e.span.merge c) e))
    (cond : ∀ {ts c}, C ts c → S ts (.cond c))
    (whileLoop : ∀ {w ts e us b}, IsExpr 1 ts e → B us b →
      S (kw .while_ w :: ts ++ us) (.whileLoop (w.merge b.span) e b))
    (forLoop : ∀ {w i n ts e us b}, IsExpr 1 ts e → B us b →
      S (kw .for_ w :: word i :: kw .in_ n :: ts ++ us) (.forLoop (w.merge b.span) i e b))
    (ret : ∀ {w ts e c}, Optional (IsExpr 1) ts e →
      S (kw .return_ w :: ts ++ [sym .semicolon c]) (.ret (w.merge c) e))
    (throw : ∀ {w ts e c}, IsExpr 1 ts e →
      S (kw .throw_ w :: ts ++ [sym .semicolon c]) (.throw (w.merge c) e))
    (tryCatch : ∀ {w ts b k us i vs h}, B ts b → Optional IsBinding us i → B vs h →
      S (kw .try_ w :: ts ++ kw .catch_ k :: us ++ vs) (.tryCatch (w.merge h.span) b i h))
    (breakLoop : ∀ w c, S [kw .break_ w, sym .semicolon c] (.breakLoop (w.merge c)))
    (continueLoop : ∀ w c, S [kw .continue_ w, sym .semicolon c] (.continueLoop (w.merge c)))
    (nested : ∀ {ts b}, B ts b → S ts (.nested b))
    (block : ∀ {o ts ss c}, Many S ts ss →
      B (sym .leftBrace o :: ts ++ [sym .rightBrace c]) (.mk (o.merge c) ss))
    (alone : ∀ {w ts e us b}, IsExpr 1 ts e → B us b →
      C (kw .if_ w :: ts ++ us) (.mk (w.merge b.span) e b .none))
    (other : ∀ {w ts e us b l vs o}, IsExpr 1 ts e → B us b → B vs o →
      C (kw .if_ w :: ts ++ us ++ kw .else_ l :: vs) (.mk (w.merge o.span) e b (.block o)))
    (chain : ∀ {w ts e us b l vs n}, IsExpr 1 ts e → B us b → C vs n →
      C (kw .if_ w :: ts ++ us ++ kw .else_ l :: vs) (.mk (w.merge n.span) e b (.chain n)))
    {ts s} (h : IsStmt ts s) : S ts s :=
  @IsStmt.rec (fun ts s _ => S ts s) (fun ts b _ => B ts b) (fun ts c _ => C ts c)
    (fun ts ss _ => Many S ts ss)
    declare assign expr (fun _ h => cond h) (fun h _ h' => whileLoop h h')
    (fun h _ h' => forLoop h h') ret throw (fun _ hi _ hb hh => tryCatch hb hi hh)
    breakLoop continueLoop (fun _ h => nested h) (fun _ h => block h) (fun h _ h' => alone h h')
    (fun h _ _ h' h'' => other h h' h'') (fun h _ _ h' h'' => chain h h' h'') .nil
    (fun _ _ h h' => .cons h h') ts s h

/-! ## Declarations -/

/-- The default value of a parameter: a literal, before which a number may have a minus. -/
inductive IsDefault : Phrase Literal
  | plain {t l} (value : LiteralOf t.token l) : IsDefault [t] l
  | negInt {m t n} (value : LiteralOf t.token (.int n)) : IsDefault [sym .minus m, t] (.int (-n))
  | negFloat {m t x} (value : LiteralOf t.token (.float x)) :
      IsDefault [sym .minus m, t] (.float (-x))

inductive IsParam : Phrase Param
  | mk {i ts t us d} (typeName : Optional (After IsName .colon) ts t)
      (default : Optional (After IsDefault .assign) us d) :
      IsParam (word i :: ts ++ us) ⟨i, t, d⟩

inductive IsField : Phrase FieldDecl
  | instance_ {w i ts e c} (init : Optional (After (IsExpr 1) .assign) ts e) :
      IsField (kw .let_ w :: word i :: ts ++ [sym .semicolon c]) ⟨i, false, e, w.merge c⟩
  | static_ {s w i ts e c} (init : Optional (After (IsExpr 1) .assign) ts e) :
      IsField (kw .static_ s :: kw .let_ w :: word i :: ts ++ [sym .semicolon c])
        ⟨i, true, e, s.merge c⟩

/-- What follows the head of a method, and where that ends. -/
inductive IsBody : List Lexeme → Option Block → Span → Prop
  | none (c : Span) : IsBody [sym .semicolon c] none c
  | block {ts b} (block : IsBlock ts b) : IsBody ts (some b) b.span

inductive IsMethod : Phrase MethodDecl
  | mk {mods w i o ts ps c us r vs b stop} (modifiers : ∀ m ∈ mods, Parse.isMethodModifier m.token)
      (params : CommaList IsParam ts ps) (returns : Optional (After IsName .arrow) us r)
      (body : IsBody vs b stop) :
      IsMethod
        (mods ++ kw .fn_ w :: word i :: sym .leftParen o :: ts ++ sym .rightParen c :: us ++ vs)
        { name := i
          isStatic := Parse.hasModifier mods .static_
          isAsync := Parse.hasModifier mods .async_
          isNative := Parse.hasModifier mods .native
          params := ps, returns := r, body := b
          span := (Parse.firstSpan mods w).merge stop }

inductive IsMember : Phrase Member
  | field {ts f} (field : IsField ts f) : IsMember ts (.field f)
  | method {ts m} (method : IsMethod ts m) : IsMember ts (.method m)

/-- The word that declares a type of a kind. -/
def kindWord : TypeKind → Keyword
  | .type => .type_
  | .capability => .capability

/-- Names of type parameters between angle brackets. -/
inductive IsGenerics : Phrase (List Ident)
  | mk {o ts is c} (names : CommaList1 IsName ts is) :
      IsGenerics (sym .less o :: ts ++ [sym .greater c]) is

inductive IsTypeDecl : Phrase TypeDecl
  | mk {mods k w i ts g us b o vs ms c} (modifiers : ∀ m ∈ mods, Parse.isTypeModifier m.token)
      (generics : Optional IsGenerics ts g)
      (bases : Optional (After (CommaList1 IsName) .colon) us b) (members : Many IsMember vs ms) :
      IsTypeDecl
        (mods ++ kw (kindWord k) w :: word i :: ts ++ us ++ sym .leftBrace o :: vs ++
          [sym .rightBrace c])
        { kind := k, name := i
          isAbstract := Parse.hasModifier mods .abstract_
          isStatic := Parse.hasModifier mods .static_
          generics := g.getD [], bases := b.getD [], members := ms
          span := (Parse.firstSpan mods w).merge c }

/-- Declarations one behind the other. -/
abbrev IsFile : Phrase (List TypeDecl) :=
  Many IsTypeDecl

end Grammar

end GenLang
